import RowLedger.Failure

/-!
# Scopes

When a caller no longer wants an answer. A scope may be cancelled at some
instant and may have a time limit that counts from the instant zero, both in
milliseconds; it may have either, both or none. It has fired as soon as an
instant is reached, the instant itself included. If both have passed, it is
the cancellation that is reported.

## Main definitions

* `Scope`: The instant of the cancellation and the limit.
* `Scope.fired?`: What is reported at an instant, if the scope has fired.
* `Scope.firesAt?`: The first instant at which it has fired.

## Theorems

* `fired?_isSome_iff`: A scope has fired exactly from that instant on.
-/

namespace RowLedger

structure Scope where
  cancelAt : Option Nat
  limit : Option UInt64
  deriving DecidableEq

namespace Scope

/-- Never fires. -/
def never : Scope := ⟨none, none⟩

/-- What is reported at an instant, if the scope has fired. -/
def fired? (s : Scope) (now : Nat) : Option Failure :=
  if s.cancelAt.any (· ≤ now) then some .cancelled
  else
    match s.limit with
    | none => none
    | some limit => if limit.toNat ≤ now then some (.timedOut (.ofMillis limit)) else none

/-- The first instant at which the scope has fired. -/
def firesAt? (s : Scope) : Option Nat :=
  match s.cancelAt, s.limit with
  | none, none => none
  | some c, none => some c
  | none, some l => some l.toNat
  | some c, some l => some (min c l.toNat)

theorem fired?_isSome_iff (s : Scope) (now : Nat) :
    (s.fired? now).isSome = true ↔ ∃ t, s.firesAt? = some t ∧ t ≤ now := by
  rcases s with ⟨cancelAt, limit⟩
  cases cancelAt with
  | none =>
      cases limit with
      | none => simp [fired?, firesAt?]
      | some l =>
          by_cases h : l.toNat ≤ now
          · simp [fired?, firesAt?, h]
          · simp [fired?, firesAt?, h]
  | some c =>
      cases limit with
      | none =>
          by_cases h : c ≤ now
          · simp [fired?, firesAt?, h]
          · simp [fired?, firesAt?, h]
      | some l =>
          simp only [fired?, firesAt?, Option.any_some, decide_eq_true_eq, Option.some.injEq,
            exists_eq_left']
          by_cases hc : c ≤ now
          · simp only [hc, ↓reduceIte, Option.isSome_some, true_iff]
            omega
          · by_cases hl : l.toNat ≤ now
            · simp only [hc, hl, ↓reduceIte, Option.isSome_some, true_iff]
              omega
            · simp only [hc, hl, ↓reduceIte, Option.isSome_none, Bool.false_eq_true, false_iff]
              omega

end Scope

end RowLedger
