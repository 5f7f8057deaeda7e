import RowLedger.Store.Basic

/-!
# Runs of the store

Everything that can happen to a store, one event after another. A transaction
is opened, makes calls, and is dropped at some time or other; a call that waits
is polled or given up; accounts are put in and commits are made to fail. Any
list of events is a run: an event that is impossible where it stands, such as a
call of a transaction that is yet to be opened or whose last call still waits,
changes nothing and is not answered. So an interleaving of transactions is no
more than the order of the list.

Only calls are answered, and what comes of a call that waits is an answer as
often as the call looks at its row.

## Main definitions

* `Call`, `Outcome`: What a transaction asks, and what comes of it.
* `Event`: What can happen to a store.
* `Store.step`: What an event does.
* `Store.after`, `Store.answers`: What a run leaves behind and what it answers.

## Theorems

* `after_append`, `answers_append`: A run can be cut in two.
* `after_induction`: What every event keeps, a run keeps.
-/

namespace RowLedger

/-- What a transaction asks of the store. -/
inductive Call where
  | request (r : Request)
  | commit
  | rollback
  deriving DecidableEq

/-- What comes of a call. -/
inductive Outcome where
  | replied (reply : Reply)
  /-- The transaction has ended, as it was asked to. -/
  | done
  /-- The transaction was not committed. -/
  | refused (reason : Refusal)
  deriving DecidableEq

def Outcome.ofResult : Except Refusal Unit → Outcome
  | .ok () => .done
  | .error reason => .refused reason

structure Answer where
  tx : TxId
  call : Call
  outcome : Outcome
  deriving DecidableEq

inductive Event where
  | start
  | call (tx : TxId) (c : Call)
  /-- The call that waits is polled, which does nothing until it has been woken. -/
  | poll (tx : TxId)
  /-- The call that waits is given up, and its transaction goes on. -/
  | abandon (tx : TxId)
  /-- The transaction is dropped, and with it a call that waits. -/
  | drop (tx : TxId)
  | insert (id : AccountId) (balance : Decimal)
  | inject (conflicts : Nat)
  deriving DecidableEq

/-- The transaction that an event is about. -/
def Event.tx? : Event → Option TxId
  | .call tx _ | .poll tx | .abandon tx | .drop tx => some tx
  | .start | .insert .. | .inject _ => none

namespace Store

/-- A call of a transaction that has no call waiting. -/
def call (s : Store) (tx : TxId) : Call → Outcome × Store
  | .request r => let (reply, s) := s.request tx r; (.replied reply, s)
  | .commit => let (result, s) := s.commit tx; (.ofResult result, s)
  | .rollback => (.done, s.release tx)

/-- What an event does, and what it answers. -/
def step (s : Store) : Event → Option Answer × Store
  | .start => (none, s.start.2)
  | .call tx c =>
    if s.isBlocked tx || decide (s.begun < tx) then (none, s)
    else
      let (outcome, s) := s.call tx c
      (some ⟨tx, c, outcome⟩, s)
  | .poll tx =>
    match s.wait? tx with
    | some ⟨r, true⟩ =>
      let (reply, s) := s.poll tx
      (some ⟨tx, .request r, .replied reply⟩, s)
    | _ => (none, s)
  | .abandon tx => (none, s.abandon tx)
  | .drop tx => (none, s.release tx)
  | .insert id balance => (none, s.insert id balance)
  | .inject conflicts => (none, s.inject conflicts)

/-- What a run leaves behind. -/
def after (s : Store) (events : List Event) : Store := events.foldl (fun s e => (s.step e).2) s

/-- What a run answers. -/
def answers (s : Store) : List Event → List Answer
  | [] => []
  | e :: rest => (s.step e).1.toList ++ (s.step e).2.answers rest

@[simp] theorem after_nil (s : Store) : s.after [] = s := rfl

@[simp] theorem after_cons (s : Store) (e : Event) (rest : List Event) :
    s.after (e :: rest) = (s.step e).2.after rest := rfl

theorem after_append (s : Store) (first second : List Event) :
    s.after (first ++ second) = (s.after first).after second :=
  List.foldl_append

theorem answers_append (s : Store) (first second : List Event) :
    s.answers (first ++ second) = s.answers first ++ (s.after first).answers second := by
  induction first generalizing s with
  | nil => rfl
  | cons e rest ih =>
      rw [List.cons_append, answers, answers, ih, List.append_assoc]
      rfl

/-- What holds at the start and is kept by every event of a run holds at its end. -/
theorem after_induction {P : Store → Prop} (events : List Event) (s : Store) (h0 : P s)
    (hstep : ∀ (s : Store) (e : Event), e ∈ events → P s → P (s.step e).2) :
    P (s.after events) := by
  induction events generalizing s with
  | nil => exact h0
  | cons e rest ih =>
      refine ih (s.step e).2 (hstep s e List.mem_cons_self h0) ?_
      intro s' e' he' hs'
      exact hstep s' e' (List.mem_cons_of_mem _ he') hs'

end Store

end RowLedger
