import RowLedger.Failure
import RowLedger.Table

/-!
# Net deltas

What a batch of transfers does to each account it mentions, all transfers
taken together. An account whose inflow and outflow cancel is still in the
table, with a zero, because it has to be locked like the others. The running
sums are kept in list order, the source of a transfer before its target, and
the first one that leaves the range of amounts names its account.

## Main definitions

* `Deltas`: The net delta of each account, by id.
* `adjust`: One running sum changed.
* `netDeltas`: The net deltas of a batch.
-/

namespace RowLedger

/-- The net delta of each account, in the order of the ids. -/
abbrev Deltas := Table AccountId Decimal

namespace Deltas

/-- The running sum of an account; one that was not mentioned yet has none. -/
def current (d : Deltas) (id : AccountId) : Decimal := (d.get? id).getD Decimal.zero

/-- The running sum of an account replaced by what an operation makes of it. -/
def adjust (d : Deltas) (id : AccountId) (f : Decimal → Option Decimal) :
    Except Failure Deltas :=
  match f (d.current id) with
  | none => .error (.overflow id)
  | some sum => .ok (d.insert id sum)

/-- Take the amount from the source, then give it to the target. -/
def move (d : Deltas) (t : Transfer) : Except Failure Deltas :=
  -- If both sums leave the range it is the source that is named.
  match d.adjust t.source (·.sub? t.amount) with
  | .error e => .error e
  | .ok d => d.adjust t.target (·.add? t.amount)

/-- All transfers of a batch on top of running sums. -/
def moveAll (d : Deltas) : List Transfer → Except Failure Deltas
  | [] => .ok d
  | t :: rest =>
    match d.move t with
    | .error e => .error e
    | .ok d => d.moveAll rest

end Deltas

/-- The net delta of every account a batch mentions. -/
def netDeltas (batch : List Transfer) : Except Failure Deltas := Deltas.moveAll .empty batch

end RowLedger
