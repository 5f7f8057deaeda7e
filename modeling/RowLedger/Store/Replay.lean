import RowLedger.Store.Run

/-!
# Runs told again

What a run has answered, taken apart by transactions. The story of a
transaction is the calls that returned to it with what they returned; a call
that met a conflict, or was given up while it waited, is no part of it. The
transactions that committed have an order, the one in which they did, and in
that order their stories can be told again to another store: each in a
transaction of its own, one after another, with nobody else around.

## Main definitions

* `Answer.counts`: A call has returned, and not with a conflict.
* `story`: What a transaction was told.
* `commitOrder`: The transactions that committed, in that order.
* `Store.callAll`: Calls of one transaction, one after another.
* `Store.retell`, `Store.retellAll`: Calls made again in transactions of their
  own.
-/

namespace RowLedger

/-- The call has returned, and not with a conflict. -/
def Answer.counts (a : Answer) : Bool :=
  match a.outcome with
  | .replied (.served _) | .done => true
  | .replied .waiting => false
  | .replied (.refused reason) | .refused reason => !reason.isConflict

/-- The transaction was committed. -/
def Answer.isCommit (a : Answer) : Bool := decide (a.call = .commit) && decide (a.outcome = .done)

/-- What a transaction asked and what it was told. -/
abbrev Story := List (Call × Outcome)

/-- What a transaction was told in a run. -/
def story (answers : List Answer) (tx : TxId) : Story :=
  (answers.filter fun a => decide (a.tx = tx) && a.counts).map fun a => (a.call, a.outcome)

/-- The transactions that committed in a run, in that order. -/
def commitOrder (answers : List Answer) : List TxId :=
  (answers.filter Answer.isCommit).map (·.tx)

namespace Store

/-- Calls of one transaction, one after another. -/
def callAll (s : Store) (tx : TxId) : List Call → List Outcome × Store
  | [] => ([], s)
  | c :: rest =>
    let (outcome, s) := s.call tx c
    let (outcomes, s) := s.callAll tx rest
    (outcome :: outcomes, s)

/-- Calls made in a transaction that is opened for them. -/
def retell (s : Store) (calls : List Call) : List Outcome × Store :=
  let (tx, s) := s.start
  s.callAll tx calls

/-- The same for the calls of several transactions, one transaction after another. -/
def retellAll (s : Store) : List (List Call) → List (List Outcome) × Store
  | [] => ([], s)
  | calls :: rest =>
    let (outcomes, s) := s.retell calls
    let (more, s) := s.retellAll rest
    (outcomes :: more, s)

end Store

end RowLedger
