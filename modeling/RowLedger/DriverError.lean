import RowLedger.Failure

/-!
# Errors of a database driver

What a database driver reports, and how it becomes a fault of the store. An
error of the database itself carries a state code, and four codes have a
class of their own. Everything else is a fault of the connection and keeps
only its text.

The queries of a store that keeps its rows in a database, and the database
itself, are not described. All that is known of them is what they report.

## Main definitions

* `DriverError`: The errors of a driver.
* `DriverError.message`: The text of an error.
* `DriverError.toStoreFault`: The class of an error, by its state code.
-/

namespace RowLedger

inductive DriverError where
  | database (code : Option String) (text : String)
  | rowNotFound
  | poolTimedOut
  | poolClosed
  | workerCrashed
  | protocol (text : String)
  | columnNotFound (text : String)
  | configuration (text : String)
  | connection (text : String)

namespace DriverError

def message : DriverError → String
  | .database _ text => "error returned from database: " ++ text
  | .rowNotFound => "no rows returned by a query that expected to return at least one row"
  | .poolTimedOut => "pool timed out while waiting for an open connection"
  | .poolClosed => "attempted to acquire a connection on a closed pool"
  | .workerCrashed => "attempted to communicate with a crashed background worker"
  | .protocol text => "encountered unexpected or invalid data: " ++ text
  | .columnNotFound text => "no column found for name: " ++ text
  | .configuration text => "error with configuration: " ++ text
  | .connection text => "error communicating with database: " ++ text

/-- The class a state code stands for. A code without a class, like an error without a code, is a
fault of the connection. -/
def toStoreFault (e : DriverError) : StoreFault :=
  match e with
  | .database (some code) text =>
    if code = deadlockCode ∨ code = serializationCode then .conflict code text
    else if code = checkCode then .constraint text
    else if code = rangeCode then .outOfRange text
    else .backend e.message
  | _ => .backend e.message

end DriverError

end RowLedger
