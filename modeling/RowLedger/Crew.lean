import RowLedger.Conflict
import RowLedger.Ordered
import RowLedger.Retry.Basic

/-!
# Callers at work

Callers that share a store, each with a list of transfers to make one after
another, every transfer as a retried call. A move takes one caller from one
stop to the next. Between two moves any other caller can move, so a schedule,
which says who moves when, is an interleaving; and since a moving caller stops
in front of its next request, every order of requests has its schedule.

Callers can also be left to themselves: each in turn works until it has no
transfers left or waits for a row. Ordered transfers do not wait in a circle,
so there is always one that somebody can go on with, and each round completes
at least one of them. As many rounds as there are transfers left are enough.

## Main definitions

* `Caller`: A caller, with what is left to do and what went wrong.
* `Crew`: The callers and what they share.
* `Crew.follow`: The moves of a schedule.
* `Crew.finish`: The callers left to themselves.
-/

namespace RowLedger

/-- A transfer as a body that is run again as long as it meets conflicts. -/
def Transfer.rules (backoff : Backoff) (t : Transfer) : RetryRules Unit where
  backoff := backoff
  draw := fun _ => .zero
  isConflict := Failure.isConflict
  body := fun _ => Work.applyTransfer t

structure Caller where
  /-- The transfers that are left; the call at work is for the first of them. -/
  todo : List Transfer
  call : Option (RetryCall Unit)
  /-- The number of transfers that failed. -/
  failures : Nat

namespace Caller

def ofTransfers (todo : List Transfer) : Caller := ⟨todo, none, 0⟩

def isDone (c : Caller) : Bool := c.todo.isEmpty

/-- The caller stands at a request. -/
def isBlocked (c : Caller) : Bool :=
  match c.call with
  | some ⟨_, _, .blocked ..⟩ => true
  | _ => false

/-- The caller with a number goes on to its next stop. A transfer that fails is told to the log
and counted, and the caller goes on with the next one. -/
def move (gait : Work.Gait Unit) (backoff : Backoff) (number : Nat) (c : Caller) (b : Bench) :
    Caller × Bench :=
  match c.todo, c.call with
  | [], _ => (c, b)
  -- The first move of a transfer is to ask for its transaction.
  | _ :: _, none =>
    let (call, b) := RetryCall.enter none b
    ({ c with call := some call }, b)
  | t :: rest, some call =>
    let (call, b) := call.resumeAt gait (t.rules backoff) b
    match call.phase with
    | .over (.returned (.error e)) =>
      (⟨rest, none, c.failures + 1⟩,
        { b with service := b.service.tell [.transferFailed number e] })
    | .over _ => (⟨rest, none, c.failures⟩, b)
    | _ => ({ c with call := some call }, b)

/-- No caller that is not blocked has more moves left than this. -/
def maxMoves (backoff : Backoff) (c : Caller) : Nat :=
  c.todo.length * (2 * (backoff.retries + 1) + 2)

/-- Move a number of times, until the caller is done or waits for a row. -/
def goOn (backoff : Backoff) (number : Nat) : Nat → Caller → Bench → Caller × Bench
  | 0, c, b => (c, b)
  | moves + 1, c, b =>
    if c.isDone then (c, b)
    else
      let (c, b) := c.move Work.run backoff number b
      -- Somebody else has to go on first.
      if c.isBlocked then (c, b) else goOn backoff number moves c b

end Caller

structure Crew where
  bench : Bench
  callers : List Caller

namespace Crew

def isDone (crew : Crew) : Bool := crew.callers.all Caller.isDone

def failures (crew : Crew) : Nat := (crew.callers.map (·.failures)).foldl (· + ·) 0

/-- The caller with a number moves up to its next request. A number that nobody has is nobody's
move. -/
def move (backoff : Backoff) (crew : Crew) (number : Nat) : Crew :=
  match crew.callers[number]? with
  | none => crew
  | some c =>
    let (c, bench) := c.move (Work.runAsking 1) backoff number crew.bench
    ⟨bench, crew.callers.set number c⟩

/-- The moves of a schedule, one after another. -/
def follow (backoff : Backoff) (schedule : List Nat) (crew : Crew) : Crew :=
  schedule.foldl (move backoff) crew

/-- Every caller, from a number on, has a turn. -/
def turns (backoff : Backoff) : Nat → List Caller → Bench → List Caller × Bench
  | _, [], b => ([], b)
  | number, c :: rest, b =>
    let (c, b) := c.goOn backoff number (c.maxMoves backoff) b
    let (rest, b) := turns backoff (number + 1) rest b
    (c :: rest, b)

/-- A number of rounds, or fewer if all are done. -/
def rounds (backoff : Backoff) : Nat → Crew → Crew
  | 0, crew => crew
  | count + 1, crew =>
    if crew.isDone then crew
    else
      let (callers, bench) := turns backoff 0 crew.callers crew.bench
      rounds backoff count ⟨bench, callers⟩

/-- The number of transfers that are left. -/
def transfersLeft (crew : Crew) : Nat := (crew.callers.map (·.todo.length)).foldl (· + ·) 0

/-- The callers are left to themselves. -/
def finish (backoff : Backoff) (crew : Crew) : Crew := rounds backoff crew.transfersLeft crew

end Crew

end RowLedger
