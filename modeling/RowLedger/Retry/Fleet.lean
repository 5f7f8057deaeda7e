import RowLedger.Retry.Course

/-!
# Calls that share a tally

Any number of retried calls that count into one tally, each in its own scope
and with its own backoff, classification and body. Calls are entered, polled
and dropped in any order.

What is done to the stores between two polls, by these calls or by anybody
else, is left open, and so is which of the calls use the same store. At each
beat a call finds its store in some state, and nothing is said about where that
comes from. All calls answer in one type, which is a sum if their answers are
of different kinds.

An attempt ends within a beat of its call, and the call then records what has
come of it: that it was not the first one, and that it met a conflict. It
records one thing after the other, and in between others may look at the tally
or record something, but the call itself does nothing else before it is done.

## Main definitions

* `Recording`: What a call may record of an attempt that has ended.
* `RetryRules.recordings`: What it does record.
* `Course.outcome?`: The outcome of the attempt that ends with a beat.
* `Member`: A call, the attempts of it that have ended, and what is still to be
  recorded.
* `Fleet`: The tally and the calls.
* `Fleet.step`, `Fleet.after`: What comes of a turn, and of many.
-/

namespace RowLedger

/-- What a call may record of an attempt that has ended. -/
inductive Recording where
  /-- An attempt that was not the first one has ended. -/
  | retry (success : Bool)
  /-- An attempt has met a conflict. -/
  | conflict
  deriving DecidableEq

namespace Recording

def isRetry : Recording → Bool
  | .retry _ => true
  | .conflict => false

def isConflict : Recording → Bool
  | .retry _ => false
  | .conflict => true

def isRecovery : Recording → Bool
  | .retry success => success
  | .conflict => false

end Recording

def Tally.record (t : Tally) : Recording → Tally
  | .retry success => t.recordRetry success
  | .conflict => t.recordConflict

namespace RetryRules

variable {α : Type}

/-- An outcome that is a failure, and classified as a conflict. -/
def meetsConflict (rules : RetryRules α) : Except Failure α → Bool
  | .ok _ => false
  | .error e => rules.isConflict e

/-- What a call records of an attempt that has ended, in this order. -/
def recordings (rules : RetryRules α) (attempt : Nat) (outcome : Except Failure α) :
    List Recording :=
  (if attempt = 0 then [] else [.retry outcome.isOk]) ++
    if rules.meetsConflict outcome then [.conflict] else []

end RetryRules

/-- The outcome of work that has one. -/
def Work.Progress.outcome? {α : Type} : Work.Progress α → Option (Except Failure α)
  | .ended outcome => some outcome
  | .blocked .. | .pausing .. | .crashed => none

namespace RetryCall

variable {α : Type}

/-- An attempt is under way. -/
def isTrying (c : RetryCall α) : Bool :=
  match c.phase with
  | .beginning _ | .blocked .. | .pausing .. => true
  | .sleeping _ | .over _ => false

/-- The outcome of the attempt that ends when the call goes on at some gait, if it ends. -/
def outcomeAt? (gait : Work.Gait α) (rules : RetryRules α) (c : RetryCall α) (s : Service) :
    Option (Except Failure α) :=
  match c.phase with
  | .beginning (some fault) => some (.error (.ofStoreFault fault))
  | .beginning none =>
    let (tx, s) := s.start
    (gait tx (rules.body (c.invoked + 1)).concluded s).1.outcome?
  | .blocked tx r next => (gait tx (.request r next) s).1.outcome?
  | .pausing tx _ next => (gait tx next s).1.outcome?
  | .sleeping _ | .over _ => none

end RetryCall

/-- The outcome of the attempt that ends with a beat, if one ends. A scope that fires while an
attempt is under way makes a failure of it. An attempt that is dropped has no outcome, and neither
has one that crashes. -/
def Course.outcome? {α : Type} (rules : RetryRules α) (scope : Scope) (c : Course α) :
    Beat α → Option (Except Failure α)
  | .poll now limitFirst company =>
    match scope.notice? limitFirst now with
    | some e => if c.call.isTrying then some (.error e) else none
    | none => c.call.outcomeAt? (fun tx w s => (w.amid tx company s).2) rules c.bench.service
  | .others _ | .giveUp _ | .drop => none

/-- One of the calls. -/
structure Member (α : Type) where
  rules : RetryRules α
  scope : Scope
  call : RetryCall α
  /-- The outcomes of the attempts that have ended, oldest first. -/
  ended : List (Except Failure α)
  /-- What the call has yet to record of the last of them. -/
  due : List Recording

namespace Member

variable {α : Type}

/-- The call with the store that it finds and the tally. -/
def course (m : Member α) (found : Service) (t : Tally) : Course α := ⟨m.call, ⟨found, t⟩, [], []⟩

/-- Something happens to the call, and what it records of it is still to be recorded. -/
def move (m : Member α) (found : Service) (t : Tally) (beat : Beat α) : Member α :=
  let c := m.course found t
  let outcome := c.outcome? m.rules m.scope beat
  { m with
    call := (c.step m.rules m.scope beat).call
    ended := m.ended ++ outcome.toList
    due := (outcome.map (m.rules.recordings m.call.attempt)).getD [] }

/-- The attempts that have ended with a conflict. -/
def conflicts (m : Member α) : Nat := m.ended.countP m.rules.meetsConflict

/-- The attempts that have ended and were not the first one. -/
def retries (m : Member α) : Nat := m.ended.tail.length

/-- Those of them that have ended with a value. -/
def recovered (m : Member α) : Nat := m.ended.tail.countP Except.isOk

end Member

/-- Calls that share a tally. -/
structure Fleet (α : Type) where
  tally : Tally
  members : List (Member α)

/-- What can happen to calls that share a tally. -/
inductive Fleet.Turn (α : Type) where
  /-- A call is entered at some instant. -/
  | enter (rules : RetryRules α) (scope : Scope) (now : Nat) (found : Service)
  /-- Something happens to the call with this number. -/
  | beat (number : Nat) (found : Service) (beat : Beat α)
  /-- The call with this number records the first thing that it has to record. -/
  | record (number : Nat)

namespace Fleet

variable {α : Type}

def empty : Fleet α := ⟨.zero, []⟩

/-- The sum over all calls. -/
def total (f : Fleet α) (g : Member α → Nat) : Nat := (f.members.map g).sum

/-- What comes of a turn. -/
def step (f : Fleet α) : Turn α → Fleet α
  | .enter rules scope now found =>
    let call := (RetryCall.enter (scope.fired? now) ⟨found, f.tally⟩).1
    { f with members := f.members ++ [⟨rules, scope, call, [], []⟩] }
  | .beat number found beat =>
    match f.members[number]? with
    | none => f
    | some m =>
      -- A call that has something to record does so first.
      if m.due = [] then { f with members := f.members.set number (m.move found f.tally beat) }
      else f
  | .record number =>
    match f.members[number]? with
    | none => f
    | some m =>
      match m.due with
      | [] => f
      | r :: rest => ⟨f.tally.record r, f.members.set number { m with due := rest }⟩

/-- What comes of one turn after another. -/
def after (f : Fleet α) (turns : List (Turn α)) : Fleet α := turns.foldl step f

end Fleet

end RowLedger
