import RowLedger.Transfer

/-!
# Faults of a store

What any store of accounts may report. Only a conflict is worth a second try:
another transaction was in the way, and the store says so with a five-letter
state code. The others are about the request itself, the transaction or the
connection.

## Main definitions

* `StoreFault`: The classes of faults.
* `StoreFault.deadlock`, `StoreFault.serialization`: The two conflicts.
* `StoreFault.message`: The text of a fault.
-/

namespace RowLedger

/-- The state code of a transaction that was aborted to break a cycle of waits. -/
def deadlockCode : String := "40P01"

/-- The state code of a transaction that could not be serialized. -/
def serializationCode : String := "40001"

/-- The state code of a violated check. -/
def checkCode : String := "23514"

/-- The state code of a number outside of its range. -/
def rangeCode : String := "22003"

inductive StoreFault where
  | conflict (code text : String)
  | constraint (text : String)
  | outOfRange (text : String)
  | notFound (id : AccountId)
  | closed
  | backend (text : String)
  deriving DecidableEq

namespace StoreFault

def deadlock (text : String) : StoreFault := .conflict deadlockCode text

def serialization (text : String) : StoreFault := .conflict serializationCode text

def isConflict : StoreFault → Bool
  | .conflict .. => true
  | _ => false

def message : StoreFault → String
  | .conflict code text => s!"{text} (SQLSTATE {code})"
  | .constraint text => s!"Constraint violation: {text}"
  | .outOfRange text => s!"Numeric value out of range: {text}"
  | .notFound id => s!"Account not found: {id}"
  | .closed => "Transaction already finished"
  | .backend text => text

end StoreFault

end RowLedger
