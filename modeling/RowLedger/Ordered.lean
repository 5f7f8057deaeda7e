import RowLedger.NetDelta
import RowLedger.Work

/-!
# Ordered transfers

Transfers that cannot deadlock among themselves. A batch is reduced to the net
delta of each account. All accounts are locked in ascending order, which is
the one order that every batch follows; then all results are checked; and only
then is anything written. So a batch that fails has written nothing, and two
batches never wait for each other in a circle.

## Main definitions

* `Work.applyDeltas`: Lock, check and write the deltas of some accounts.
* `Work.applyTransfers`, `Work.applyTransfer`: The body of a batch inside a
  transaction.
* `Operation.transfer`, `Operation.batch`: The same in a transaction of its
  own, unless the outcome is clear before one begins.
* `Operation.perform`: Run one on its own.
* `OrderedCall`: The ways to have transfers done in the lock order.
-/

namespace RowLedger

/-- An account that is locked, with its balance and what is to happen to it. -/
structure Locked where
  id : AccountId
  balance : Decimal
  delta : Decimal
  deriving DecidableEq

/-- The objection to the result of an account, as a failure and as the log tells it. -/
def Locked.objection? (l : Locked) : Option (Notice × Failure) :=
  match l.balance.add? l.delta with
  | none => some (.balanceOverflow l.id l.balance l.delta, .overflow l.id)
  | some next =>
    if next.isNegative then
      some (.fundsMissing l.id l.balance l.delta,
        .insufficientFunds l.id l.balance l.delta.neg)
    else none

namespace Work

/-- Lock accounts in the order of the list and read their balances. -/
def lockAll : List (AccountId × Decimal) → Work (List Locked)
  | [] => pure []
  | (id, delta) :: rest => do
    let balance ← query id
    let others ← lockAll rest
    pure (⟨id, balance, delta⟩ :: others)

/-- No result is negative or out of range. -/
def checkResults (accounts : List Locked) : Work Unit :=
  match accounts.findSome? Locked.objection? with
  | none => pure ()
  | some (notice, failure) => do
    say notice
    fail failure

/-- Write what is not zero. -/
def writeAll : List Locked → Work Unit
  | [] => pure ()
  -- An account whose delta is zero was locked and checked, and that is all.
  | l :: rest =>
    if l.delta.isZero then writeAll rest
    else do
      update l.id l.delta
      writeAll rest

/-- Lock all accounts in ascending order, check all results, and write. -/
def applyDeltas (deltas : Deltas) : Work Unit := do
  let accounts ← lockAll deltas.entries
  checkResults accounts
  writeAll accounts

/-- The body of a batch inside a transaction. -/
def applyTransfers (batch : List Transfer) : Work Unit :=
  match Transfer.checkAll batch with
  | .error o => fail (.ofObjection o)
  | .ok () =>
    match netDeltas batch with
    | .error e => fail e
    | .ok deltas => applyDeltas deltas

/-- A single transfer is a batch of one. -/
def applyTransfer (t : Transfer) : Work Unit := applyTransfers [t]

end Work

/-- What an operation on the ledger needs: nothing more, or a transaction of its own. -/
inductive Operation where
  | settled (outcome : Except Failure Unit)
  | inTransaction (body : Work Unit)

namespace Operation

/-- One transfer in a transaction of its own. -/
def transfer (t : Transfer) : Operation :=
  match t.check with
  | .error o => .settled (.error (.ofObjection o))
  | .ok () =>
    .inTransaction do
      (Work.applyTransfer t).concluded
      Work.say (.transferDone t)

/-- A batch in a transaction of its own. An empty batch needs none. -/
def batch (transfers : List Transfer) : Operation :=
  match Transfer.checkAll transfers with
  | .error o => .settled (.error (.ofObjection o))
  | .ok () =>
    if transfers.isEmpty then .settled (.ok ())
    else
      .inTransaction do
        (Work.applyTransfers transfers).concluded
        Work.say (.batchDone transfers.length)

/-- Run an operation with nothing in its way. One that has to stop all the same is given up. -/
def perform (operation : Operation) (s : Service) : Work.Progress Unit × Service :=
  match operation with
  | .settled outcome => (.ended outcome, s)
  | .inTransaction body =>
    let (tx, s) := s.start
    let (progress, s) := body.run tx s
    (progress, s.drop tx)

end Operation

/-- The ways to have transfers done in the lock order. -/
inductive OrderedCall where
  | transfer (t : Transfer)
  | batch (transfers : List Transfer)
  /-- One attempt of a retried call whose body is a transfer. -/
  | transferAttempt (t : Transfer)
  /-- One attempt of a retried call whose body is a batch. -/
  | batchAttempt (transfers : List Transfer)

namespace OrderedCall

def operation : OrderedCall → Operation
  | .transfer t => .transfer t
  | .batch transfers => .batch transfers
  | .transferAttempt t => .inTransaction (Work.applyTransfer t).concluded
  | .batchAttempt transfers => .inTransaction (Work.applyTransfers transfers).concluded

/-- The transfers to be done. -/
def transfers : OrderedCall → List Transfer
  | .transfer t | .transferAttempt t => [t]
  | .batch transfers | .batchAttempt transfers => transfers

end OrderedCall

end RowLedger
