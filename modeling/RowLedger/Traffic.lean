import RowLedger.Ordered
import RowLedger.Store.Run

/-!
# Traffic

Everything that goes on at one store at the same time: transactions that
somebody has opened by hand, and operations that each have a transaction of
their own. A turn belongs to one of them, and a list of turns is an
interleaving. An operation does one thing in a turn, so it can be overtaken
between any two of its calls, and it can be cut off at any point, also while it
waits for a row.

What the operations are is up to the traffic: each has a label, and a program
says what the labels stand for. A transaction that belongs to an operation is
no one else's, so a turn of somebody else with it does nothing.

## Main definitions

* `Task`: An operation in its transaction, as far as it has come.
* `Traffic`: The store and the tasks.
* `Turn`: Whose move it is.
* `Report`: What is to be told about a turn.
* `Traffic.step`: What a turn does.
* `Traffic.after`, `Traffic.reports`: What a list of turns does and tells.
* `Traffic.AtRest`: No task can go on.

## Theorems

* `after_append`, `reports_append`: A list of turns can be cut in two.
-/

namespace RowLedger

/-- An operation in its transaction, as far as it has come. -/
structure Task (ι : Type) where
  label : ι
  /-- What is left to do. -/
  work : Work Unit

structure Traffic (ι : Type) where
  service : Service
  /-- The operations that have not ended, by their transactions. -/
  tasks : Table TxId (Task ι)

inductive Turn (ι : Type) where
  /-- Something happens to the store that is no operation's doing. -/
  | event (e : Event)
  /-- An operation starts. -/
  | launch (label : ι)
  /-- The operation in a transaction goes on. -/
  | advance (tx : TxId)
  /-- The operation in a transaction is dropped where it stands. -/
  | cut (tx : TxId)

inductive Report (ι : Type) where
  | answered (a : Answer)
  /-- An operation has ended; it may have had no transaction. -/
  | returned (label : ι) (tx : Option TxId) (outcome : Except Failure Unit)
  | crashed (label : ι) (tx : TxId)

namespace Traffic

variable {ι : Type} (program : ι → Operation)

def ofStore (store : Store) : Traffic ι := ⟨.ofStore store, .empty⟩

def store (t : Traffic ι) : Store := t.service.store

/-- The transaction belongs to an operation. -/
def isTaken (t : Traffic ι) (tx : TxId) : Bool := t.tasks.contains tx

/-- The operation in a transaction is over, and the transaction with it. -/
def close (t : Traffic ι) (tx : TxId) : Traffic ι :=
  ⟨t.service.drop tx, t.tasks.erase tx⟩

/-- A task goes on. -/
def advance (t : Traffic ι) (tx : TxId) (task : Task ι) : List (Report ι) × Traffic ι :=
  match task.work with
  | .done outcome => ([.returned task.label (some tx) outcome], t.close tx)
  | .crash => ([.crashed task.label tx], t.close tx)
  | work =>
    let (work, service) := work.step tx t.service
    ([], ⟨service, t.tasks.insert tx { task with work }⟩)

/-- What a turn does and what is told about it. -/
def step (t : Traffic ι) : Turn ι → List (Report ι) × Traffic ι
  | .event e =>
    if e.tx?.any t.isTaken then ([], t)
    else
      let (answer, store) := t.store.step e
      (answer.toList.map .answered, { t with service := { t.service with store } })
  | .launch label =>
    match program label with
    | .settled outcome => ([.returned label none outcome], t)
    | .inTransaction body =>
      let (tx, service) := t.service.start
      ([], ⟨service, t.tasks.insert tx ⟨label, body⟩⟩)
  | .advance tx =>
    match t.tasks.get? tx with
    | none => ([], t)
    | some task => t.advance tx task
  | .cut tx => ([], if t.isTaken tx then t.close tx else t)

/-- What a list of turns leaves behind. -/
def after (t : Traffic ι) (turns : List (Turn ι)) : Traffic ι :=
  turns.foldl (fun t turn => (t.step program turn).2) t

/-- What is told about a list of turns. -/
def reports (t : Traffic ι) : List (Turn ι) → List (Report ι)
  | [] => []
  | turn :: rest => (t.step program turn).1 ++ (t.step program turn).2.reports rest

/-- No task can go on: each of them waits for a row. -/
def AtRest (t : Traffic ι) : Prop :=
  ∀ tx task, t.tasks.get? tx = some task → t.store.isBlocked tx = true

@[simp] theorem after_nil (t : Traffic ι) : t.after program [] = t := rfl

@[simp] theorem after_cons (t : Traffic ι) (turn : Turn ι) (rest : List (Turn ι)) :
    t.after program (turn :: rest) = (t.step program turn).2.after program rest := rfl

theorem after_append (t : Traffic ι) (first second : List (Turn ι)) :
    t.after program (first ++ second) = (t.after program first).after program second :=
  List.foldl_append

theorem reports_append (t : Traffic ι) (first second : List (Turn ι)) :
    t.reports program (first ++ second) =
      t.reports program first ++ (t.after program first).reports program second := by
  induction first generalizing t with
  | nil => rfl
  | cons turn rest ih =>
      rw [List.cons_append, reports, reports, ih, List.append_assoc]
      rfl

end Traffic

end RowLedger
