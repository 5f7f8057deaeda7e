import RowLedger.Binary64.Text

/-!
# Tally of conflicts and retries

Three counters that a retry driver keeps: conflicts seen, retries made, and
retries that succeeded. A conflict has been seen exactly when its counter is
not zero, so the time of the last one needs no place of its own here; whoever
has a clock keeps it and hands its text to the summary.

## Main definitions

* `Tally`: The counters.
* `Tally.rate`: The share of retries that succeeded; zero without retries.
* `Tally.summary`: One line of text.
-/

namespace RowLedger

structure Tally where
  conflicts : Nat
  retries : Nat
  recovered : Nat
  deriving DecidableEq

namespace Tally

def zero : Tally := ⟨0, 0, 0⟩

instance : Inhabited Tally := ⟨zero⟩

def recordConflict (t : Tally) : Tally := { t with conflicts := t.conflicts + 1 }

/-- One attempt after the first of its call has ended. -/
def recordRetry (t : Tally) (success : Bool) : Tally :=
  { t with
    retries := t.retries + 1
    recovered := if success then t.recovered + 1 else t.recovered }

def rate (t : Tally) : Binary64 :=
  if t.retries = 0 then .zero
  else (Binary64.ofNat t.recovered).div (Binary64.ofNat t.retries)

/-- The counters, the rate with two places, and the time of the last conflict if there was one. -/
def summary (t : Tally) (lastConflict : String) : String :=
  let last := if t.conflicts = 0 then "never" else lastConflict
  s!"Deadlock Stats: deadlocks={t.conflicts}, retries={t.retries} " ++
    s!"(successful={t.recovered}, rate={t.rate.fixed 2}), last_deadlock={last}"

end Tally

end RowLedger
