import RowLedger.Decimal.Text

/-!
# Accounts and transfers

The rows of the ledger and the order to move money between two of them. An
account counts the committed writes it has seen; a new one has seen none. A
transfer moves a positive amount between two different accounts, and what it
violates is told with the amount before the accounts.

## Main definitions

* `Account`: Id, balance and version.
* `Transfer`: Source, target and amount.
* `Objection`: Why a transfer is none.
* `Transfer.check`: The first objection, if there is one.
* `Transfer.checkAll`: The first objection in a batch.

## Theorems

* `checkAll_ok_iff`, `checkAll_error_iff`: What a batch is checked for.
-/

namespace RowLedger

/-- Accounts are identified by 64-bit integers, and their order is the lock order. -/
abbrev AccountId := Int

structure Account where
  id : AccountId
  balance : Decimal
  version : Int
  deriving DecidableEq

/-- A row that has not been written yet. -/
def Account.fresh (id : AccountId) (balance : Decimal) : Account := ⟨id, balance, 0⟩

structure Transfer where
  source : AccountId
  target : AccountId
  amount : Decimal
  deriving DecidableEq

/-- Why a transfer is refused before any account is looked at. -/
inductive Objection where
  | notPositive (amount : Decimal)
  | sameAccount (id : AccountId)
  deriving DecidableEq

def Objection.message : Objection → String
  | .notPositive amount => s!"amount must be greater than zero, got {amount.render}"
  | .sameAccount id => s!"source and target account cannot be the same ({id})"

namespace Transfer

/-- A transfer moves a positive amount between two accounts. -/
def check (t : Transfer) : Except Objection Unit :=
  if t.amount.isPositive then
    if t.source = t.target then .error (.sameAccount t.source) else .ok ()
  else .error (.notPositive t.amount)

/-- The first objection in a batch, in list order. -/
def checkAll : List Transfer → Except Objection Unit
  | [] => .ok ()
  | t :: rest =>
    match t.check with
    | .error e => .error e
    | .ok () => checkAll rest

section CheckAll

variable {batch before : List Transfer}

/-- Valid transfers are passed over. -/
theorem checkAll_append (h : ∀ t ∈ before, t.check = .ok ()) (rest : List Transfer) :
    checkAll (before ++ rest) = checkAll rest := by
  induction before with
  | nil => rfl
  | cons t before ih =>
      rw [List.cons_append, checkAll, h t List.mem_cons_self]
      exact ih fun u hu => h u (List.mem_cons_of_mem _ hu)

theorem checkAll_ok_iff : checkAll batch = .ok () ↔ ∀ t ∈ batch, t.check = .ok () := by
  refine ⟨fun h => ?_, fun h => ?_⟩
  · induction batch with
    | nil => simp
    | cons t rest ih =>
        rw [checkAll] at h
        cases hcheck : t.check with
        | error o => simp [hcheck] at h
        | ok =>
            rw [hcheck] at h
            intro u hu
            rcases List.mem_cons.1 hu with rfl | hu
            · exact hcheck
            · exact ih h u hu
  · rw [← List.append_nil batch, checkAll_append h, checkAll]

/-- The first transfer that is none is the one that is objected to. -/
theorem checkAll_error_iff {o : Objection} : checkAll batch = .error o ↔
    ∃ before t after, batch = before ++ t :: after ∧ (∀ u ∈ before, u.check = .ok ()) ∧
      t.check = .error o := by
  refine ⟨fun h => ?_, ?_⟩
  · induction batch with
    | nil => simp [checkAll] at h
    | cons t rest ih =>
        rw [checkAll] at h
        cases hcheck : t.check with
        | error o' =>
            rw [hcheck, Except.error.injEq] at h
            exact ⟨[], t, rest, rfl, by simp, h ▸ hcheck⟩
        | ok =>
            rw [hcheck] at h
            rcases ih h with ⟨before, u, after, hsplit, hvalid, hbad⟩
            refine ⟨t :: before, u, after, by rw [hsplit]; rfl, ?_, hbad⟩
            intro v hv
            rcases List.mem_cons.1 hv with rfl | hv
            · exact hcheck
            · exact hvalid v hv
  · rintro ⟨before, t, after, rfl, hvalid, hcheck⟩
    rw [checkAll_append hvalid, checkAll, hcheck]

end CheckAll

end Transfer

end RowLedger
