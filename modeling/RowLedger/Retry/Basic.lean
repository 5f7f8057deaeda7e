import RowLedger.Backoff
import RowLedger.Tally
import RowLedger.Work

/-!
# Retried calls

A call that runs a unit of work in a transaction of its own and runs it again
in another one if it met a conflict. An attempt begins a transaction, runs the
body, and commits or rolls back. A failure that is no conflict ends the call.
A conflict is counted and followed by a wait and the next attempt, until the
retries are used up.

A call is a state between two things that happen to it: what it waits for is
there, or the scope it runs in fires. While it begins, works or waits, a firing
takes the place of what would have come; an open transaction is rolled back
before anything else. Whatever ends an attempt, the attempt is counted once,
after its transaction is gone. A firing that interrupts an attempt counts like
any other failure of it, and one that interrupts a wait ends the call.

## Main definitions

* `RetryRules`: Backoff, classification and body.
* `RetryCall`: The state of a call.
* `RetryCall.resume`: What the call waits for is there.
* `RetryCall.fire`: The scope fires.
* `RetryCall.abandon`: The caller drops the call.
-/

namespace RowLedger

structure RetryRules (α : Type) where
  backoff : Backoff
  /-- The draw for the wait after each attempt, between minus one and one. -/
  draw : Nat → Binary64
  isConflict : Failure → Bool
  /-- What the n-th run of the body does, counted from one. -/
  body : Nat → Work α

/-- The store, its plan and notes, and the tally that calls share. -/
structure Bench where
  service : Service
  tally : Tally
  deriving DecidableEq

/-- A store with nothing planned, told or counted yet. -/
def Bench.ofStore (store : Store) : Bench := ⟨.ofStore store, .zero⟩

instance : Inhabited Bench := ⟨.ofStore .empty⟩

/-- How a call is over. -/
inductive CallEnd (α : Type) where
  | returned (outcome : Except Failure α)
  | crashed
  | dropped

/-- What a call is about. -/
inductive CallPhase (α : Type) where
  /-- A transaction is asked for, and may turn out a fault. -/
  | beginning (fault : Option StoreFault)
  /-- The body stands at a request: it waits for a row, or has yet to ask. -/
  | blocked (tx : TxId) (r : Request) (next : Except StoreFault Decimal → Work α)
  /-- The body pauses. -/
  | pausing (tx : TxId) (millis : Nat) (next : Work α)
  /-- The call waits between two attempts. -/
  | sleeping (wait : Duration)
  | over (how : CallEnd α)

structure RetryCall (α : Type) where
  /-- The number of attempts before this one. -/
  attempt : Nat
  /-- The number of times the body has been started. -/
  invoked : Nat
  phase : CallPhase α

namespace RetryCall

variable {α : Type}

def isOver (c : RetryCall α) : Bool :=
  match c.phase with
  | .over _ => true
  | _ => false

/-- The transaction that is open in the call. -/
def openTx? (c : RetryCall α) : Option TxId :=
  match c.phase with
  | .blocked tx .. => some tx
  | .pausing tx .. => some tx
  | _ => none

/-- Ask for the transaction of an attempt. The plan is looked at when the store is asked. -/
def attemptFrom (attempt invoked : Nat) (b : Bench) : RetryCall α × Bench :=
  let (fault, service) := b.service.takeBeginFault
  (⟨attempt, invoked, .beginning fault⟩, { b with service })

/-- A call enters its first attempt, unless its scope has fired already. -/
def enter (fired : Option Failure) (b : Bench) : RetryCall α × Bench :=
  match fired with
  | some e => (⟨0, 0, .over (.returned (.error e))⟩, b)
  | none => attemptFrom 0 0 b

/-- Count an attempt that has ended and is not the first one. -/
def countRetry (c : RetryCall α) (success : Bool) (t : Tally) : Tally :=
  if c.attempt = 0 then t else t.recordRetry success

/-- What follows an attempt that has ended. Its transaction is gone. -/
def attemptEnded (rules : RetryRules α) (c : RetryCall α) (outcome : Except Failure α)
    (b : Bench) : RetryCall α × Bench :=
  match outcome with
  | .ok a =>
    let notices := if c.attempt = 0 then [] else [.retrySucceeded "memory" (c.attempt + 1)]
    ({ c with phase := .over (.returned (.ok a)) },
      ⟨b.service.tell notices, c.countRetry true b.tally⟩)
  | .error e =>
    let tally := c.countRetry false b.tally
    if rules.isConflict e then
      -- The last attempt has no wait behind it.
      if rules.backoff.retries ≤ c.attempt then
        ({ c with phase := .over (.returned (.error (.retriesExhausted (c.attempt + 1) e))) },
          ⟨b.service.tell [.retriesUsedUp "memory" (c.attempt + 1) e], tally.recordConflict⟩)
      else
        let wait := rules.backoff.jittered c.attempt (rules.draw c.attempt)
        ({ c with phase := .sleeping wait },
          ⟨b.service.tell [.backingOff "memory" c.attempt wait e], tally.recordConflict⟩)
    else ({ c with phase := .over (.returned (.error e)) }, { b with tally })

/-- Where the call stands after its transaction ran as far as it could. -/
def advanced (rules : RetryRules α) (c : RetryCall α) (tx : TxId)
    (progress : Work.Progress α × Service) (tally : Tally) : RetryCall α × Bench :=
  match progress with
  -- The transaction is gone before the attempt counts as ended.
  | (.ended outcome, service) => c.attemptEnded rules outcome ⟨service.drop tx, tally⟩
  | (.blocked r next, service) => ({ c with phase := .blocked tx r next }, ⟨service, tally⟩)
  | (.pausing millis next, service) =>
    ({ c with phase := .pausing tx millis next }, ⟨service, tally⟩)
  | (.crashed, service) => ({ c with phase := .over .crashed }, ⟨service.drop tx, tally⟩)

/-- What the call waits for is there, or may be, and the body runs at some gait. -/
def resumeAt (gait : Work.Gait α) (rules : RetryRules α) (c : RetryCall α) (b : Bench) :
    RetryCall α × Bench :=
  match c.phase with
  | .beginning (some fault) => c.attemptEnded rules (.error (.ofStoreFault fault)) b
  | .beginning none =>
    let (tx, service) := b.service.start
    let c := { c with invoked := c.invoked + 1 }
    c.advanced rules tx (gait tx (rules.body c.invoked).concluded service) b.tally
  | .blocked tx r next => c.advanced rules tx (gait tx (.request r next) b.service) b.tally
  | .pausing tx _ next => c.advanced rules tx (gait tx next b.service) b.tally
  -- The next attempt has a transaction of its own.
  | .sleeping _ => attemptFrom (c.attempt + 1) c.invoked b
  | .over _ => (c, b)

/-- What the call waits for is there, or may be, and the body runs as far as it goes. -/
def resume (rules : RetryRules α) (c : RetryCall α) (b : Bench) : RetryCall α × Bench :=
  c.resumeAt Work.run rules b

/-- The body is dropped where it stands, and its transaction is rolled back. -/
def cutOff (rules : RetryRules α) (c : RetryCall α) (tx : TxId) (e : Failure) (b : Bench) :
    RetryCall α × Bench :=
  c.advanced rules tx ((Work.conclude (.error e)).run tx (b.service.abandon tx)) b.tally

/-- The scope fires. -/
def fire (rules : RetryRules α) (c : RetryCall α) (e : Failure) (b : Bench) :
    RetryCall α × Bench :=
  match c.phase with
  | .beginning _ => c.attemptEnded rules (.error e) b
  | .blocked tx .. => c.cutOff rules tx e b
  | .pausing tx .. => c.cutOff rules tx e b
  | .sleeping _ => ({ c with phase := .over (.returned (.error e)) }, b)
  | .over _ => (c, b)

/-- The caller drops the call. An open transaction is dropped with it. -/
def abandon (c : RetryCall α) (b : Bench) : RetryCall α × Bench :=
  match c.phase with
  | .over _ => (c, b)
  | _ =>
    -- A transaction that nobody goes on with is rolled back.
    let service := match c.openTx? with
      | none => b.service
      | some tx => b.service.drop tx
    ({ c with phase := .over .dropped }, { b with service })

end RetryCall

end RowLedger
