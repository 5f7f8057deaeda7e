import RowLedger.Failure

/-!
# Which failures are conflicts

A failed try is worth repeating exactly when it failed on a conflict. The
typed conflict is authoritative. A fault without a class is judged by its text,
because some drivers report a deadlock as nothing but a sentence: the state
code counts only behind the word `SQLSTATE`, since a bare number may be
anything, and the two well-known phrases count in any case. No other failure
is judged by its text, so words that a user wrote never cause a retry.

## Main definitions

* `occursIn`: A text occurs inside another.
* `readsAsConflict`: The text of an unclassified fault names a conflict.
* `Failure.isConflict`: The default classification.

## Theorems

* `occursIn_iff`: To occur inside is to be an infix.
-/

namespace RowLedger

/-- The first text occurs somewhere in the second. -/
def occursIn (needle : List Char) : List Char → Bool
  | [] => needle.isEmpty
  | c :: rest => needle.isPrefixOf (c :: rest) || occursIn needle rest

theorem occursIn_iff (needle text : List Char) :
    occursIn needle text = true ↔ needle <:+: text := by
  induction text with
  | nil => simp [occursIn]
  | cons c rest ih =>
      simp only [occursIn, Bool.or_eq_true, ih, List.isPrefixOf_iff_prefix,
        List.infix_cons_iff]

/-- The text names a conflict, by a tagged state code or by a phrase in any case. -/
def readsAsConflict (text : String) : Bool :=
  let cs := text.toList
  let lower := cs.map Char.toLower
  occursIn ("SQLSTATE " ++ deadlockCode).toList cs ||
    occursIn ("SQLSTATE " ++ serializationCode).toList cs ||
    occursIn "deadlock detected".toList lower ||
    occursIn "could not serialize access".toList lower

namespace Failure

/-- A conflict by its class, or an unclassified fault that reads as one. -/
def isConflict : Failure → Bool
  | .conflict _ => true
  | .store (.backend text) => readsAsConflict text
  | _ => false

end Failure

end RowLedger
