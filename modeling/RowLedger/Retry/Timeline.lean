import RowLedger.Retry.Basic
import RowLedger.Scope
import RowLedger.Script

/-!
# Retried calls in time

Calls on a clock that stands still while anything can run and then moves to
the next instant at which something happens. Computing takes no time, and all
delays are whole milliseconds. What can happen is that a delay is over, that
another transaction gives its rows back, and that the scope of the call fires.
At one instant the scope comes first. A call that waits for a row which nobody
will give back, in a scope that will not fire, never ends.

An event either ends a pause or a wait of the call or takes one of the rows'
holders away, so the number of events is bounded by the attempts, the waits in
the longest script, and the holders.

## Main definitions

* `Hold`: Rows that another transaction holds for a while.
* `CallSetting`: A call with its holds, scope and scripts.
* `CallReport`: What a call came to.
* `CallSetting.run`: Run a call.
* `runCalls`: Run calls one after another.
-/

namespace RowLedger

/-- Rows that another transaction holds until an instant, or until the call is over. -/
structure Hold where
  rows : List AccountId
  releaseAt : Option Nat

structure CallSetting where
  holds : List Hold
  /-- How long the caller waits before the call. -/
  delay : Nat
  scope : Scope
  /-- One for each run of the body; the last one is for all further runs as well. -/
  scripts : List (List Action)

/-- What all calls have in common. -/
structure CallRules where
  backoff : Backoff
  isConflict : Failure → Bool
  /-- How long each begin takes. -/
  beginDelay : Nat

structure CallReport where
  /-- How the call is over; it never is if there is no such thing. -/
  result : Option (CallEnd Nat)
  /-- For each run of the body, its instant and its notes. -/
  runs : List (Nat × List Note)
  bench : Bench
  elapsed : Nat

/-- The script of a run of the body. -/
def CallSetting.script (s : CallSetting) (run : Nat) : List Action :=
  (s.scripts[run - 1]?.or s.scripts.getLast?).getD []

/-- The body answers which run it was. -/
def CallSetting.rules (s : CallSetting) (r : CallRules) : RetryRules Nat where
  backoff := r.backoff
  draw := fun _ => .zero
  isConflict := r.isConflict
  body := fun run => do
    Action.workAll (s.script run)
    pure run

/-- A transaction that asks for rows and keeps those it gets. -/
def Store.hold (s : Store) (rows : List AccountId) : TxId × Store :=
  let (tx, s) := s.start
  (tx, rows.foldl (fun s row => (s.request tx (.query row)).2.abandon tx) s)

/-- A call on the clock. -/
structure Timeline where
  now : Nat
  call : RetryCall Nat
  bench : Bench
  /-- The holders that will give their rows back, by instant. -/
  releases : List (Nat × TxId)
  runs : List (Nat × List Note)

/-- What happens next. -/
inductive Happening where
  /-- A delay is over. -/
  | due (instant : Nat)
  /-- A holder gives its rows back. -/
  | freed (instant : Nat)
  /-- The scope fires. -/
  | fires (instant : Nat)
  | nothing

namespace Timeline

/-- Give back the rows that are due at an instant. -/
def freeUpTo (t : Timeline) (instant : Nat) : Timeline :=
  let (due, later) := t.releases.partition (·.1 ≤ instant)
  let service := due.foldl (fun s e => s.drop e.2) t.bench.service
  { t with releases := later, bench := { t.bench with service } }

/-- The length of the delay that the call is in, if it is in one. -/
def delay? (beginDelay : Nat) (c : RetryCall Nat) : Option Nat :=
  match c.phase with
  | .beginning _ => some beginDelay
  | .pausing _ millis _ => some millis
  | .sleeping wait => some wait.ceilMillis
  | _ => none

/-- What the call itself waits for. -/
def ahead (t : Timeline) (beginDelay : Nat) : Happening :=
  match delay? beginDelay t.call with
  | some millis => .due (t.now + millis)
  | none =>
    match t.releases.map (·.1) with
    | [] => .nothing
    | first :: rest => .freed (rest.foldl min first)

/-- What happens next to the call. The scope comes before anything at the same instant. -/
def next (t : Timeline) (beginDelay : Nat) (scope : Scope) : Happening :=
  match scope.firesAt?, t.ahead beginDelay with
  | none, ahead => ahead
  -- The scope is first where both come at once.
  | some f, .due instant => if f ≤ instant then .fires (max t.now f) else .due instant
  | some f, .freed instant => if f ≤ instant then .fires (max t.now f) else .freed instant
  | some f, _ => .fires (max t.now f)

/-- Take over a step of the call. A run of the body that started in it has its notes from here
on, and other notes belong to the run before. -/
def took (t : Timeline) (step : RetryCall Nat × Bench) : Timeline :=
  let (call, bench) := step
  let notes := bench.service.notes
  let runs :=
    -- A new run of the body has notes of its own.
    if t.call.invoked < call.invoked then t.runs ++ [(t.now, notes)]
    else
      match t.runs.getLast? with
      | none => t.runs
      | some last => t.runs.dropLast ++ [(last.1, last.2 ++ notes)]
  { t with call, runs, bench := { bench with service := { bench.service with notes := [] } } }

/-- The clock moves on to an instant. -/
def moveTo (t : Timeline) (instant : Nat) : Timeline :=
  { t with now := max t.now instant }.freeUpTo instant

/-- Let a number of things happen, until the call is over or nothing will. -/
def play (rules : RetryRules Nat) (beginDelay : Nat) (scope : Scope) : Nat → Timeline → Timeline
  | 0, t => t
  | events + 1, t =>
    if t.call.isOver then t
    else
      match t.next beginDelay scope with
      | .nothing => t
      | .fires instant =>
        let t := t.moveTo instant
        match scope.fired? t.now with
        | none => t
        | some e => play rules beginDelay scope events (t.took (t.call.fire rules e t.bench))
      | .due instant | .freed instant =>
        let t := t.moveTo instant
        play rules beginDelay scope events (t.took (t.call.resume rules t.bench))

end Timeline

namespace CallSetting

/-- No call has more events than this. -/
def maxEvents (s : CallSetting) (r : CallRules) : Nat :=
  let waits := (s.scripts.map fun script => (script.map Action.waits).foldl (· + ·) 0).foldl max 0
  (r.backoff.retries + 1) * (waits + s.holds.length + 3) + 1

/-- Start the holders, and tell when each gives its rows back. -/
def startHolds (b : Bench) : List Hold → List (Nat × TxId) × List TxId × Bench
  | [] => ([], [], b)
  | h :: rest =>
    let (tx, store) := b.service.store.hold h.rows
    let (releases, holders, b) := startHolds { b with service := { b.service with store } } rest
    match h.releaseAt with
    | none => (releases, tx :: holders, b)
    | some instant => ((instant, tx) :: releases, tx :: holders, b)

/-- Run a call. When it is over, whatever is left of it and of the holders is dropped. -/
def run (s : CallSetting) (r : CallRules) (b : Bench) : CallReport :=
  let (releases, holders, b) := startHolds b s.holds
  let (call, b') := RetryCall.enter (s.scope.fired? s.delay) b
  -- The clock starts when the caller stops waiting.
  let start : Timeline := ⟨s.delay, call, b', releases, []⟩
  let last := (start.freeUpTo s.delay).play (s.rules r) r.beginDelay s.scope (s.maxEvents r)
  let result := match last.call.phase with
    | .over how => some how
    | _ => none
  -- Nothing of the call is left to disturb the next one.
  let bench := (last.call.abandon last.bench).2
  let service := holders.foldl (fun s tx => s.drop tx) bench.service
  ⟨result, last.runs, { bench with service }, last.now⟩

end CallSetting

/-- Run calls one after another. -/
def runCalls (r : CallRules) : List CallSetting → Bench → List CallReport × Bench
  | [], b => ([], b)
  | s :: rest, b =>
    let report := s.run r b
    let (reports, b) := runCalls r rest report.bench
    (report :: reports, b)

end RowLedger
