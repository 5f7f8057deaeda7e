import RowLedger.Retry.Basic
import RowLedger.Scope
import RowLedger.Store.Run

/-!
# Retried calls among others

A retried call as the other users of the store meet it. The call is polled from
time to time. At each poll it looks at its scope first, and only if that has not
fired it goes on with what it stands at, as far as it gets. What the others do
meanwhile comes between two polls, and while the body runs also between any two
things that it asks of the store. They may do whatever they like, except to a
transaction that is not theirs. A body that waits for a row may give the row up,
say because it has waited long enough, and go on with something else.

A course is a call together with a record of what the store has seen since the
call was entered, by the call and by everybody else, and of the transactions
that the call has begun. So what a call has done can be looked up in a run of
the store. When no one else is there, the body runs as it does alone.

## Main definitions

* `Scope.notice?`: What a call is told that finds its scope fired.
* `Work.amid`: Run inside a transaction among others.
* `Course`: A call and the record of its course.
* `Beat`: What can happen to a call.
* `Course.step`, `Course.after`: What comes of it.

## Theorems

* `amid_alone`: With nobody else there work runs as far as it gets alone.
* `goOn_alone`: With nobody else there a call goes on as it does alone.
-/

namespace RowLedger

/-- What a call is told that finds its scope fired. If the limit has passed and the scope was
cancelled as well, the one is as likely to be noticed as the other. -/
def Scope.notice? (s : Scope) (limitFirst : Bool) (now : Nat) : Option Failure :=
  match s.limit with
  | none => s.fired? now
  | some limit =>
    if limitFirst && decide (limit.toNat ≤ now) then some (.timedOut (.ofMillis limit))
    else s.fired? now

/-- The events that others can bring about while a transaction is open that is not theirs. -/
def Event.around (mine : Option TxId) (events : List Event) : List Event :=
  events.filter fun e => decide (e.tx? = none ∨ e.tx? ≠ mine)

/-- The event behind asking: a call that waits already is polled. -/
def Store.asking (s : Store) (tx : TxId) (r : Request) : Event :=
  if s.isBlocked tx then .poll tx else .call tx (.request r)

namespace Service

/-- The store after some events. -/
def happen (s : Service) (events : List Event) : Service :=
  { s with store := s.store.after events }

/-- What the store sees of a commit. A planned fault takes the place of the call. -/
def commitSeen (s : Service) (tx : TxId) : List Event :=
  match s.plan.commits with
  | some _ :: _ => []
  | _ => [.call tx .commit]

/-- What the store sees of a rollback. -/
def rollbackSeen (s : Service) (tx : TxId) : List Event :=
  match s.plan.rollbacks with
  | some _ :: _ => []
  | _ => [.call tx .rollback]

end Service

namespace Work

variable {α : Type}

/-- Run inside a transaction until the work ends, waits for a row, pauses or crashes. Before each
call the others do what comes first in their list. What the store sees of it all is told as well. -/
def amid (tx : TxId) : Work α → List (List Event) → Service → List Event × Progress α × Service
  | .done outcome, _, s => ([], .ended outcome, s)
  | .request r next, company, s =>
    let others := Event.around (some tx) (company.headD [])
    let s := s.happen others
    let mine := s.store.asking tx r
    match s.request tx r with
    | (none, s) => (others ++ [mine], .blocked r next, s)
    | (some answer, s) =>
      let (events, result) := amid tx (next answer) company.tail s
      (others ++ mine :: events, result)
  | .commit next, company, s =>
    let others := Event.around (some tx) (company.headD [])
    let s := s.happen others
    let mine := s.commitSeen tx
    let (answer, s) := s.commit tx
    let (events, result) := amid tx (next answer) company.tail s
    (others ++ mine ++ events, result)
  | .rollback next, company, s =>
    let others := Event.around (some tx) (company.headD [])
    let s := s.happen others
    let mine := s.rollbackSeen tx
    let (answer, s) := s.rollback tx
    let (events, result) := amid tx (next answer) company.tail s
    (others ++ mine ++ events, result)
  | .pause millis next, _, s => ([], .pausing millis next, s)
  | .tell notice next, company, s => amid tx next company (s.tell [notice])
  | .note n next, company, s => amid tx next company (s.note n)
  | .crash, _, s => ([], .crashed, s)

/-- What the store sees of a transaction at last: work that is over drops it. -/
def Progress.lastSeen (tx : TxId) : Progress α → List Event
  | .ended _ | .crashed => [.drop tx]
  | .blocked .. | .pausing .. => []

/-- What the store sees while work runs among others. -/
def amidSeen (tx : TxId) (w : Work α) (company : List (List Event)) (s : Service) : List Event :=
  let (events, progress, _) := w.amid tx company s
  events ++ progress.lastSeen tx

theorem amid_alone (tx : TxId) (w : Work α) (s : Service) : (w.amid tx [] s).2 = w.run tx s := by
  induction w generalizing s with
  | done outcome => rfl
  | request r next ih =>
      have hnobody :
          s.happen (Event.around (some tx) (([] : List (List Event)).headD [])) = s := rfl
      simp only [amid, run, hnobody]
      cases s.request tx r with
      | mk answer s' =>
          cases answer with
          | none => rfl
          | some answer => exact ih answer s'
  | commit next ih => exact ih _ _
  | rollback next ih => exact ih _ _
  | pause millis next => rfl
  | tell notice next ih => exact ih _
  | note n next ih => exact ih _
  | crash => rfl

end Work

/-- A call and the record of its course. -/
structure Course (α : Type) where
  call : RetryCall α
  bench : Bench
  /-- What the store has seen since the call was entered, the doings of the others included. -/
  seen : List Event
  /-- The transactions that the call has begun, oldest first. -/
  opened : List TxId

/-- What can happen to a call. -/
inductive Beat (α : Type) where
  /-- Others do something to the store. -/
  | others (events : List Event)
  /-- The call is polled at an instant. If both its limit and its cancellation have passed by then,
  it may notice either first. While the body runs it has company. -/
  | poll (now : Nat) (limitFirst : Bool) (company : List (List Event))
  /-- The body gives up the row that it waits for, and has this left to do instead. -/
  | giveUp (instead : Work α)
  /-- The caller drops the call. -/
  | drop

namespace Course

variable {α : Type}

def store (c : Course α) : Store := c.bench.service.store

/-- A call is entered at some instant. -/
def enter (scope : Scope) (now : Nat) (b : Bench) : Course α :=
  let (call, bench) := RetryCall.enter (scope.fired? now) b
  ⟨call, bench, [], []⟩

/-- The transaction that the call begins at its next poll, if it begins one. -/
def newTx (c : Course α) : List TxId :=
  match c.call.phase with
  | .beginning none => [c.bench.service.start.1]
  | _ => []

/-- What the store sees when the call goes on. -/
def seenNext (rules : RetryRules α) (company : List (List Event)) (c : Course α) : List Event :=
  match c.call.phase with
  | .beginning none =>
    let (tx, service) := c.bench.service.start
    .start :: (rules.body (c.call.invoked + 1)).concluded.amidSeen tx company service
  | .blocked tx r next => (Work.request r next).amidSeen tx company c.bench.service
  | .pausing tx _ next => next.amidSeen tx company c.bench.service
  | _ => []

/-- What the store sees when the scope fires. -/
def seenCut (c : Course α) : List Event :=
  match c.call.openTx? with
  | none => []
  | some tx => .abandon tx :: c.bench.service.rollbackSeen tx ++ [.drop tx]

/-- What the store sees when the caller drops the call. -/
def seenDrop (c : Course α) : List Event :=
  match c.call.openTx? with
  | none => []
  | some tx => [.drop tx]

/-- The call goes on in company. -/
def goOn (rules : RetryRules α) (company : List (List Event)) (c : Course α) : Course α :=
  let gait : Work.Gait α := fun tx w s => (w.amid tx company s).2
  let (call, bench) := c.call.resumeAt gait rules c.bench
  ⟨call, bench, c.seen ++ c.seenNext rules company, c.opened ++ c.newTx⟩

/-- The scope of the call has fired. -/
def cut (rules : RetryRules α) (e : Failure) (c : Course α) : Course α :=
  let (call, bench) := c.call.fire rules e c.bench
  { c with call, bench, seen := c.seen ++ c.seenCut }

/-- The body gives up the row that it waits for. What it does instead begins at its next poll. -/
def giveUp (instead : Work α) (c : Course α) : Course α :=
  match c.call.phase with
  | .blocked tx _ _ =>
    { c with
      call := { c.call with phase := .pausing tx 0 instead.concluded }
      bench := { c.bench with service := c.bench.service.abandon tx }
      seen := c.seen ++ [.abandon tx] }
  | _ => c

/-- Something happens to the call. -/
def step (rules : RetryRules α) (scope : Scope) (c : Course α) : Beat α → Course α
  | .others events =>
    let events := Event.around c.call.openTx? events
    { c with
      bench := { c.bench with service := c.bench.service.happen events }
      seen := c.seen ++ events }
  | .poll now limitFirst company =>
    -- Whatever else is due, the scope comes first.
    match scope.notice? limitFirst now with
    | some e => c.cut rules e
    | none => c.goOn rules company
  | .giveUp instead => c.giveUp instead
  | .drop =>
    let (call, bench) := c.call.abandon c.bench
    { c with call, bench, seen := c.seen ++ c.seenDrop }

/-- One thing after another happens to the call. -/
def after (rules : RetryRules α) (scope : Scope) (c : Course α) (beats : List (Beat α)) :
    Course α :=
  beats.foldl (step rules scope) c

theorem goOn_alone (rules : RetryRules α) (c : Course α) :
    ((c.goOn rules []).call, (c.goOn rules []).bench) = c.call.resume rules c.bench := by
  have hgait : (fun tx w s => (Work.amid tx w [] s).2 : Work.Gait α) = Work.run := by
    funext tx w s
    exact Work.amid_alone tx w s
  rw [goOn, hgait, RetryCall.resume]

end Course

end RowLedger
