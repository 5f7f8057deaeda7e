import RowLedger.Service

/-!
# Units of work

What a caller does inside a transaction, told step by step: ask the store,
commit, roll back, pause, tell the log, note something down, crash. Every step
that has an answer says how to go on with it, so a unit of work that had to
stop for a row or for a pause is simply what is left of it, and can be taken
up again later.

A unit of work ends with a value or with a failure. To run one after another
is to go on with the value and to stop at the failure.

## Main definitions

* `Work`: A unit of work and its outcome.
* `Work.settle`: Go on with the outcome, whichever it is.
* `Work.concluded`: End the transaction by the outcome: commit a value, roll
  back a failure.
* `Work.step`: The first thing that a unit of work does.
* `Work.run`: Run inside a transaction as far as it goes.
* `Work.runAsking`: Run, but ask the store a limited number of times.

## Theorems

* `settle_done`: To stop at the outcome changes nothing.
* `settle_settle`: Going on twice is going on with the rest.
* `bind_assoc`: One after another can be grouped in either way.
-/

namespace RowLedger

inductive Work (α : Type) where
  | done (outcome : Except Failure α)
  | request (r : Request) (next : Except StoreFault Decimal → Work α)
  | commit (next : Except StoreFault Unit → Work α)
  | rollback (next : Except StoreFault Unit → Work α)
  | pause (millis : Nat) (next : Work α)
  | tell (notice : Notice) (next : Work α)
  | note (n : Note) (next : Work α)
  | crash

namespace Work

variable {α β γ : Type}

/-- Go on with the outcome, whichever it is. After a crash nothing goes on. -/
def settle (w : Work α) (f : Except Failure α → Work β) : Work β :=
  match w with
  | .done outcome => f outcome
  | .request r next => .request r fun answer => (next answer).settle f
  | .commit next => .commit fun answer => (next answer).settle f
  | .rollback next => .rollback fun answer => (next answer).settle f
  | .pause millis next => .pause millis (next.settle f)
  | .tell notice next => .tell notice (next.settle f)
  | .note n next => .note n (next.settle f)
  | .crash => .crash

/-- Go on with a value and stop at a failure. -/
def bind (w : Work α) (f : α → Work β) : Work β :=
  w.settle fun
    | .ok a => f a
    | .error e => .done (.error e)

instance : Monad Work where
  pure a := .done (.ok a)
  bind := bind

def fail (e : Failure) : Work α := .done (.error e)

/-- The value, or the failure that the store's fault amounts to. -/
def ofAnswer : Except StoreFault α → Work α
  | .ok a => .done (.ok a)
  | .error fault => .done (.error (.ofStoreFault fault))

def ask (r : Request) : Work Decimal := .request r ofAnswer

def query (row : AccountId) : Work Decimal := ask (.query row)

def update (row : AccountId) (delta : Decimal) : Work Unit := do
  let _ ← ask (.update row delta)

/-- Pause, unless there is nothing to wait for. -/
def wait (millis : Nat) : Work Unit :=
  if millis = 0 then pure () else .pause millis (pure ())

/-- Tell the log something and go on. -/
def say (notice : Notice) : Work Unit := .tell notice (.done (.ok ()))

/-- End the transaction by an outcome. A value is only a value if the commit succeeds; a failure
stays what it is, even if the rollback fails as well. -/
def conclude : Except Failure α → Work α
  | .ok a => .commit fun
    | .ok () => .done (.ok a)
    | .error fault => .done (.error (.ofStoreFault fault))
  | .error e => .rollback fun
    | .ok () => .done (.error e)
    -- The first failure is the one that counts.
    | .error fault => .tell (.rollbackFailed fault e) (.done (.error e))

/-- A unit of work that ends its transaction. -/
def concluded (w : Work α) : Work α := w.settle conclude

theorem settle_done (w : Work α) : w.settle .done = w := by
  induction w with
  | done outcome => rfl
  | request r next ih => simp only [settle, ih]
  | commit next ih => simp only [settle, ih]
  | rollback next ih => simp only [settle, ih]
  | pause millis next ih => simp only [settle, ih]
  | tell notice next ih => simp only [settle, ih]
  | note n next ih => simp only [settle, ih]
  | crash => rfl

theorem settle_settle (w : Work α) (f : Except Failure α → Work β)
    (g : Except Failure β → Work γ) :
    (w.settle f).settle g = w.settle fun outcome => (f outcome).settle g := by
  induction w with
  | done outcome => rfl
  | request r next ih => simp only [settle, ih]
  | commit next ih => simp only [settle, ih]
  | rollback next ih => simp only [settle, ih]
  | pause millis next ih => simp only [settle, ih]
  | tell notice next ih => simp only [settle, ih]
  | note n next ih => simp only [settle, ih]
  | crash => rfl

theorem bind_assoc (w : Work α) (f : α → Work β) (g : β → Work γ) :
    (w.bind f).bind g = w.bind fun a => (f a).bind g := by
  simp only [bind, settle_settle]
  congr 1
  funext outcome
  cases outcome <;> rfl

/-- Do the first thing there is to do, and tell what is left. Nothing is left to do of work that
has ended or crashed, and work that waits for a row stays where it is. -/
def step (tx : TxId) : Work α → Service → Work α × Service
  | .done outcome, s => (.done outcome, s)
  | .request r next, s =>
    match s.request tx r with
    | (none, s) => (.request r next, s)
    | (some answer, s) => (next answer, s)
  | .commit next, s => let (answer, s) := s.commit tx; (next answer, s)
  | .rollback next, s => let (answer, s) := s.rollback tx; (next answer, s)
  | .pause _ next, s => (next, s)
  | .tell notice next, s => (next, s.tell [notice])
  | .note n next, s => (next, s.note n)
  | .crash, s => (.crash, s)

/-- Where a unit of work stands when it can go no further. -/
inductive Progress (α : Type) where
  | ended (outcome : Except Failure α)
  | blocked (r : Request) (next : Except StoreFault Decimal → Work α)
  | pausing (millis : Nat) (next : Work α)
  | crashed

/-- Run inside a transaction until the work ends, waits for a row, pauses or crashes. -/
def run (tx : TxId) : Work α → Service → Progress α × Service
  | .done outcome, s => (.ended outcome, s)
  | .request r next, s =>
    match s.request tx r with
    | (none, s) => (.blocked r next, s)
    | (some answer, s) => run tx (next answer) s
  | .commit next, s => let (answer, s) := s.commit tx; run tx (next answer) s
  | .rollback next, s => let (answer, s) := s.rollback tx; run tx (next answer) s
  | .pause millis next, s => (.pausing millis next, s)
  | .tell notice next, s => run tx next (s.tell [notice])
  | .note n next, s => run tx next (s.note n)
  | .crash, s => (.crashed, s)

/-- Run as before, but stop in front of the store when the requests are used up. Requests are
what others can get in between, so work that is run one request at a time can be interleaved with
other work in every way there is. -/
def runAsking (requests : Nat) (tx : TxId) : Work α → Service → Progress α × Service
  | .done outcome, s => (.ended outcome, s)
  | .request r next, s =>
    match requests with
    | 0 => (.blocked r next, s)
    | requests + 1 =>
      match s.request tx r with
      | (none, s) => (.blocked r next, s)
      | (some answer, s) => runAsking requests tx (next answer) s
  | .commit next, s => let (answer, s) := s.commit tx; runAsking requests tx (next answer) s
  | .rollback next, s => let (answer, s) := s.rollback tx; runAsking requests tx (next answer) s
  | .pause millis next, s => (.pausing millis next, s)
  | .tell notice next, s => runAsking requests tx next (s.tell [notice])
  | .note n next, s => runAsking requests tx next (s.note n)
  | .crash, s => (.crashed, s)

/-- A way to run work inside a transaction until it stops. -/
abbrev Gait (α : Type) := TxId → Work α → Service → Progress α × Service

/-- Ask again for the row that the work waits for, and run on if it is there. -/
def resume (tx : TxId) (r : Request) (next : Except StoreFault Decimal → Work α) (s : Service) :
    Progress α × Service :=
  run tx (.request r next) s

end Work

end RowLedger
