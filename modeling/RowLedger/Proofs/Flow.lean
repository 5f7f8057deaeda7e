import Mathlib.Algebra.BigOperators.Group.Finset.Piecewise
import Mathlib.Algebra.BigOperators.Ring.List
import Mathlib.Algebra.Order.BigOperators.Group.Finset
import RowLedger.NetDelta
import RowLedger.Proofs.Exact

/-!
# What a batch moves

What goes into an account and what goes out of it, over all transfers of a
batch. Summed up over all accounts that are mentioned nothing is left, since
what goes out of one account goes into another.

The net deltas of a batch are computed as running sums that might be rounded.
None of them is larger than the gross amount of the batch, so if all amounts
are multiples of one quantum and the gross amount is below its capacity, the
net deltas exist and are what the batch moves, exactly.

## Main definitions

* `through`: What goes through an account on one side of the transfers.
* `inflow`, `outflow`: What goes into an account and out of it.
* `gross`: All amounts of a batch.
* `Measured`: A batch whose sums are exact.

## Theorems

* `sum_through`: Over all accounts each side is the gross amount.
* `flow_le`: No account has a larger flow than that.
* `moveAll_exact`, `netDeltas_exact`: Net deltas are exact.
-/

namespace RowLedger

open Finset

/-- What goes through an account on one side of the transfers. -/
def through (side : Transfer → AccountId) (batch : List Transfer) (id : AccountId) : Int :=
  (batch.map fun t => if side t = id then t.amount.units else 0).sum

/-- What goes into an account. -/
def inflow : List Transfer → AccountId → Int := through (·.target)

/-- What goes out of an account. -/
def outflow : List Transfer → AccountId → Int := through (·.source)

/-- All amounts of a batch. -/
def gross (batch : List Transfer) : Int := (batch.map fun t => t.amount.units).sum

/-- A batch whose sums are exact: its amounts are multiples of a quantum, and all of them together
are below its capacity. -/
structure Measured (s : Nat) (batch : List Transfer) : Prop where
  multiple : ∀ t ∈ batch, (Decimal.quantum s : Int) ∣ t.amount.units
  fits : gross batch < Decimal.capacity s

section Sums

variable {side : Transfer → AccountId} {batch : List Transfer}

theorem through_cons (side : Transfer → AccountId) (t : Transfer) (rest : List Transfer)
    (id : AccountId) :
    through side (t :: rest) id = (if side t = id then t.amount.units else 0) +
      through side rest id := by
  rw [through, List.map_cons, List.sum_cons]
  rfl

theorem through_append (side : Transfer → AccountId) (first second : List Transfer)
    (id : AccountId) :
    through side (first ++ second) id = through side first id + through side second id := by
  rw [through, List.map_append, List.sum_append]
  rfl

theorem gross_cons (t : Transfer) (rest : List Transfer) :
    gross (t :: rest) = t.amount.units + gross rest := by
  rw [gross, List.map_cons, List.sum_cons]
  rfl

theorem gross_append (first second : List Transfer) :
    gross (first ++ second) = gross first + gross second := by
  rw [gross, List.map_append, List.sum_append]
  rfl

/-- Over all accounts that are mentioned, what goes through is the gross amount. -/
theorem sum_through {ids : Finset AccountId} (h : ∀ t ∈ batch, side t ∈ ids) :
    ∑ id ∈ ids, through side batch id = gross batch := by
  induction batch with
  | nil => simp [through, gross]
  | cons t rest ih =>
      simp only [through_cons, sum_add_distrib, gross_cons]
      rw [ih fun t' ht' => h t' (List.mem_cons_of_mem _ ht'), sum_ite_eq,
        if_pos (h t List.mem_cons_self)]

theorem dvd_through {q : Int} (h : ∀ t ∈ batch, q ∣ t.amount.units) (id : AccountId) :
    q ∣ through side batch id := by
  refine List.dvd_sum ?_
  intro x hx
  rcases List.mem_map.1 hx with ⟨t, ht, rfl⟩
  split
  · exact h t ht
  · exact Int.dvd_zero q

variable (hpositive : ∀ t ∈ batch, 0 < t.amount.units)
include hpositive

theorem through_nonneg (id : AccountId) : 0 ≤ through side batch id := by
  refine List.sum_nonneg ?_
  intro x hx
  rcases List.mem_map.1 hx with ⟨t, ht, rfl⟩
  split
  · exact Int.le_of_lt (hpositive t ht)
  · exact Int.le_refl 0

theorem through_le_gross (id : AccountId) : through side batch id ≤ gross batch := by
  refine List.sum_le_sum ?_
  intro t ht
  split
  · exact Int.le_refl _
  · exact Int.le_of_lt (hpositive t ht)

theorem gross_nonneg : 0 ≤ gross batch := by
  refine List.sum_nonneg ?_
  intro x hx
  rcases List.mem_map.1 hx with ⟨t, ht, rfl⟩
  exact Int.le_of_lt (hpositive t ht)

-- What goes in and what goes out are each between zero and the gross amount, so is their distance.
/-- No account has a larger flow than the gross amount. -/
theorem flow_le (id : AccountId) : (inflow batch id - outflow batch id).natAbs ≤ gross batch := by
  have h1 : 0 ≤ inflow batch id := through_nonneg hpositive id
  have h2 : 0 ≤ outflow batch id := through_nonneg hpositive id
  have h3 : inflow batch id ≤ gross batch := through_le_gross hpositive id
  have h4 : outflow batch id ≤ gross batch := through_le_gross hpositive id
  omega

end Sums

/-- The first transfer of a batch that is measured is measured alone, and so are the others. -/
theorem measured_cons {scale : Nat} {t : Transfer} {rest : List Transfer}
    (hmeasured : Measured scale (t :: rest)) (hpositive : ∀ t' ∈ t :: rest, 0 < t'.amount.units) :
    Measured scale [t] ∧ Measured scale rest := by
  have hfits := hmeasured.fits
  have hamount := hpositive t List.mem_cons_self
  have hothers : 0 ≤ gross rest :=
    gross_nonneg fun t' ht' => hpositive t' (List.mem_cons_of_mem _ ht')
  have hnone : gross [] = 0 := rfl
  rw [gross_cons] at hfits
  refine ⟨⟨?_, by rw [gross_cons]; omega⟩, ⟨?_, by omega⟩⟩
  · intro t' ht'
    rw [List.mem_singleton.1 ht']
    exact hmeasured.multiple t List.mem_cons_self
  · exact fun t' ht' => hmeasured.multiple t' (List.mem_cons_of_mem _ ht')

theorem dvd_flow {s : Nat} {batch : List Transfer} (hmeasured : Measured s batch) (id : AccountId) :
    (Decimal.quantum s : Int) ∣ inflow batch id - outflow batch id :=
  Int.dvd_sub (dvd_through hmeasured.multiple id) (dvd_through hmeasured.multiple id)

/-- What the net deltas come to is nothing over all accounts. -/
theorem sum_flow {batch : List Transfer} {ids : Finset AccountId}
    (h : ∀ t ∈ batch, t.source ∈ ids ∧ t.target ∈ ids) :
    ∑ id ∈ ids, (inflow batch id - outflow batch id) = 0 := by
  rw [sum_sub_distrib, inflow, outflow, sum_through fun t ht => (h t ht).2,
    sum_through fun t ht => (h t ht).1, Int.sub_self]

/-- What has passed the check moves a positive amount between two accounts. -/
theorem of_checkAll {batch : List Transfer} (h : Transfer.checkAll batch = .ok ()) :
    ∀ t ∈ batch, 0 < t.amount.units ∧ t.source ≠ t.target := by
  induction batch with
  | nil => simp
  | cons t rest ih =>
      rw [Transfer.checkAll] at h
      cases hcheck : t.check with
      | error o => simp [hcheck] at h
      | ok =>
          rw [hcheck] at h
          intro t' ht'
          rcases List.mem_cons.1 ht' with rfl | ht'
          · rw [Transfer.check] at hcheck
            split at hcheck
            · rename_i hpositive
              split at hcheck
              · simp at hcheck
              · rename_i hne
                exact ⟨(Decimal.isPositive_iff _).1 hpositive, hne⟩
            · simp at hcheck
          · exact ih h t' ht'

namespace Deltas

theorem current_of_some {d : Deltas} {id : AccountId} {delta : Decimal}
    (hget : d.get? id = some delta) : d.current id = delta := by
  rw [current, hget]
  rfl

theorem units_current_of_none {d : Deltas} {id : AccountId} (hget : d.get? id = none) :
    (d.current id).units = 0 := by
  rw [current, hget]
  exact (Decimal.isZero_iff _).1 rfl

theorem current_insert (d : Deltas) (id id' : AccountId) (sum : Decimal) :
    current (d.insert id sum) id' = if id = id' then sum else d.current id' := by
  rw [current, Table.get?_insert]
  split
  · rfl
  · rfl

/-- A transfer changes the running sums by what it moves, if these changes are exact. -/
theorem move_exact {d : Deltas} {t : Transfer} (hne : t.source ≠ t.target)
    (hsource : ∃ c, (d.current t.source).sub? t.amount = some c ∧
      c.units = (d.current t.source).units - t.amount.units)
    (htarget : ∃ c, (d.current t.target).add? t.amount = some c ∧
      c.units = (d.current t.target).units + t.amount.units) :
    ∃ d', d.move t = .ok d' ∧ ∀ id, (d'.current id).units = (d.current id).units +
      ((if t.target = id then t.amount.units else 0) -
        (if t.source = id then t.amount.units else 0)) := by
  rcases hsource with ⟨a, hsub, ha⟩
  rcases htarget with ⟨b, hadd, hb⟩
  have hother : current (d.insert t.source a) t.target = d.current t.target := by
    rw [current_insert, if_neg hne]
  refine ⟨(d.insert t.source a).insert t.target b, ?_, ?_⟩
  · simp only [move, adjust, hsub, hother, hadd]
  · intro id
    rw [current_insert, current_insert]
    by_cases ht : t.target = id
    · rw [if_pos ht, if_pos ht, if_neg (fun hs => hne (hs.trans ht.symm)), hb, ht]
      omega
    · rw [if_neg ht, if_neg ht]
      by_cases hs : t.source = id
      · rw [if_pos hs, if_pos hs, ha, hs]
        omega
      · rw [if_neg hs, if_neg hs]
        omega

-- Induction on the transfers to come, with those that are done already as a prefix: the running
-- sums are what the prefix moves, and no prefix moves more than the gross amount of the batch.
/-- Running sums stay exact over a whole batch. -/
theorem moveAll_exact {s : Nat} (rest : List Transfer) (before : List Transfer) (d : Deltas)
    (hmeasured : Measured s (before ++ rest))
    (hvalid : ∀ t ∈ before ++ rest, 0 < t.amount.units ∧ t.source ≠ t.target)
    (hexact : ∀ id, (d.current id).units = inflow before id - outflow before id) :
    ∃ d', d.moveAll rest = .ok d' ∧ ∀ id, (d'.current id).units =
      inflow (before ++ rest) id - outflow (before ++ rest) id := by
  induction rest generalizing before d with
  | nil =>
      rw [List.append_nil]
      exact ⟨d, rfl, hexact⟩
  | cons t rest ih =>
      have hpositive : ∀ t ∈ before, 0 < t.amount.units := fun t' ht' =>
        (hvalid t' (List.mem_append_left _ ht')).1
      have hrest : 0 ≤ gross rest := gross_nonneg fun t' ht' =>
        (hvalid t' (List.mem_append_right _ (List.mem_cons_of_mem _ ht'))).1
      rcases hvalid t (List.mem_append_right _ List.mem_cons_self) with ⟨hamount, hne⟩
      have hdvd : (Decimal.quantum s : Int) ∣ t.amount.units :=
        hmeasured.multiple t (List.mem_append_right _ List.mem_cons_self)
      have hsums : ∀ id, (Decimal.quantum s : Int) ∣ (d.current id).units := by
        intro id
        rw [hexact]
        have hbefore : ∀ t' ∈ before, (Decimal.quantum s : Int) ∣ t'.amount.units := fun t' ht' =>
          hmeasured.multiple t' (List.mem_append_left _ ht')
        exact Int.dvd_sub (dvd_through hbefore id) (dvd_through hbefore id)
      -- With this transfer the sums are still no larger than the gross amount.
      have hbound : ∀ id, (d.current id).units.natAbs + t.amount.units < Decimal.capacity s := by
        intro id
        have hflow := flow_le hpositive id
        have hfits := hmeasured.fits
        rw [gross_append, gross_cons] at hfits
        rw [hexact]
        omega
      have hsource := Decimal.sub?_exact (hsums t.source) hdvd (by have := hbound t.source; omega)
      have htarget := Decimal.add?_exact (hsums t.target) hdvd (by have := hbound t.target; omega)
      rcases move_exact hne hsource htarget with ⟨d', hmove, hnext⟩
      rw [List.append_cons] at hmeasured hvalid ⊢
      rw [moveAll, hmove]
      refine ih (before ++ [t]) d' hmeasured hvalid ?_
      intro id
      rw [hnext, hexact, inflow, outflow, through_append, through_append, through_cons,
        through_cons]
      simp only [through, List.map_nil, List.sum_nil]
      omega

end Deltas

/-- The net deltas of a batch that is measured exist and are what the batch moves. -/
theorem netDeltas_exact {s : Nat} {batch : List Transfer} (hmeasured : Measured s batch)
    (hchecked : Transfer.checkAll batch = .ok ()) :
    ∃ deltas, netDeltas batch = .ok deltas ∧
      ∀ id, (deltas.current id).units = inflow batch id - outflow batch id := by
  have hempty : ∀ id, (Deltas.current .empty id).units = inflow [] id - outflow [] id := by
    intro id
    rw [Deltas.units_current_of_none (Table.get?_empty id)]
    rfl
  have hall := Deltas.moveAll_exact (s := s) batch [] .empty
  rw [List.nil_append] at hall
  exact hall hmeasured (of_checkAll hchecked) hempty

end RowLedger
