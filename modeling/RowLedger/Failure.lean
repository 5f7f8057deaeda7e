import RowLedger.Duration
import RowLedger.StoreFault

/-!
# Failures of ledger operations

Why an operation on the ledger failed. There is one type for all of them, so
that a caller who retries, reports or gives up has one thing to look at. A
fault of the store becomes a failure by its class: conflicts stay conflicts, a
missing row is a missing account, and anything else is the store's own matter.

## Main definitions

* `Failure`: The ways an operation fails.
* `Failure.code`: A stable name for reports.
* `Failure.message`: The text of a failure.
* `Failure.ofStoreFault`: How a fault of the store is seen by its callers.
* `Failure.lastConflict?`: What ended the last try, after too many tries.
-/

namespace RowLedger

inductive Failure where
  | conflict (fault : StoreFault)
  | insufficientFunds (account : AccountId) (balance required : Decimal)
  | alreadyLocked (name : String)
  | overflow (account : AccountId)
  | retriesExhausted (attempts : Nat) (last : Failure)
  | cancelled
  | timedOut (limit : Duration)
  | invalidTransfer (reason : String)
  | accountNotFound (account : AccountId)
  | store (fault : StoreFault)
  deriving DecidableEq

namespace Failure

def code : Failure → String
  | .conflict _ => "CONFLICT"
  | .insufficientFunds .. => "INSUFFICIENT_FUNDS"
  | .alreadyLocked _ => "ALREADY_LOCKED"
  | .overflow _ => "OVERFLOW"
  | .retriesExhausted .. => "RETRIES_EXHAUSTED"
  | .cancelled => "CANCELLED"
  | .timedOut _ => "TIMED_OUT"
  | .invalidTransfer _ => "INVALID_TRANSFER"
  | .accountNotFound _ => "ACCOUNT_NOT_FOUND"
  | .store _ => "STORE_ERROR"

def message : Failure → String
  | .conflict fault => "Transaction conflict: " ++ fault.message
  | .insufficientFunds account balance required =>
    s!"Insufficient funds in account {account}: balance {balance.render}, " ++
      s!"required {required.render}"
  | .alreadyLocked name => "Resource already locked: " ++ name
  | .overflow account => s!"Amount would cause overflow on account {account}"
  | .retriesExhausted attempts last =>
    s!"Retries exhausted after {attempts} attempts: " ++ last.message
  | .cancelled => "Operation cancelled"
  | .timedOut limit => "Operation timed out after " ++ limit.render
  | .invalidTransfer reason => "Invalid transfer: " ++ reason
  | .accountNotFound account => s!"Account not found: {account}"
  | .store fault => "Store error: " ++ fault.message

/-- What ended the last try, if the tries are used up. -/
def lastConflict? : Failure → Option Failure
  | .retriesExhausted _ last => some last
  | _ => none

/-- The fault a failure carries as it came from the store. -/
def storeFault? : Failure → Option StoreFault
  | .conflict fault => some fault
  | .store fault => some fault
  | _ => none

/-- A fault of the store, seen by the store's callers. -/
def ofStoreFault : StoreFault → Failure
  | .conflict code text => .conflict (.conflict code text)
  | .notFound id => .accountNotFound id
  | .constraint text => .store (.constraint text)
  | .outOfRange text => .store (.outOfRange text)
  | .closed => .store .closed
  | .backend text => .store (.backend text)

def ofObjection (o : Objection) : Failure := .invalidTransfer o.message

end Failure

end RowLedger
