import RowLedger.Ordered

/-!
# Scripts

The body of a transaction as a list of actions. They are run in order and the
first failure ends the body, except that an action may be tried: then what
became of it is noted, and the body goes on.

## Main definitions

* `Action`: One thing to do inside a transaction.
* `Action.work`: What it does.
* `Action.workAll`: What a list of actions does.
-/

namespace RowLedger

inductive Action where
  /-- Read a balance and note it. -/
  | query (row : AccountId)
  | update (row : AccountId) (delta : Decimal)
  | transfer (t : Transfer)
  | batch (transfers : List Transfer)
  | sleep (millis : Nat)
  | commit
  | rollback
  | fail (failure : Failure)
  | crash
  /-- Note what becomes of an action, and go on. -/
  | attempt (action : Action)

namespace Action

def work : Action → Work Unit
  | .query row => do
    let balance ← Work.query row
    .note (.balance balance) (pure ())
  | .update row delta => Work.update row delta
  | .transfer t => Work.applyTransfer t
  | .batch transfers => Work.applyTransfers transfers
  | .sleep millis => .pause millis (pure ())
  | .commit => .commit Work.ofAnswer
  | .rollback => .rollback Work.ofAnswer
  | .fail failure => Work.fail failure
  | .crash => .crash
  | .attempt action =>
    action.work.settle fun
      | .ok () => .note .succeeded (pure ())
      | .error e => .note (.failed e) (pure ())

def workAll : List Action → Work Unit
  | [] => pure ()
  | action :: rest => do
    action.work
    workAll rest

/-- The number of pauses and of rows an action can wait for, at most. -/
def waits : Action → Nat
  | .query _ => 1
  | .update .. => 1
  | .transfer _ => 2
  | .batch transfers => 2 * transfers.length
  | .sleep _ => 1
  | .attempt action => action.waits
  | _ => 0

end Action

end RowLedger
