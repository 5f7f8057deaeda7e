import RowLedger.Demo
import RowLedger.Proofs.Flow

/-!
# The transfers of the demonstration

All transfers of the demonstration are of whole amounts between two different
accounts that are there, for any number of accounts from two on. Around the
ring each account pays once and is paid once, whether or not the amounts, which
come over and over, fit the number of accounts; so it loses the difference of
the largest amount and the smallest at most. And what the callers move is ten
for each of their transfers at most, so that is all that may ever go out of an
account.

## Main definitions

* `Whole`: A transfer of a whole amount up to a bound.

## Theorems

* `measured_of_whole`: Whole amounts add up exactly.
* `checkAll_ring`, `checkAll_transfersOf`: All transfers are valid.
* `flow_ring_ge`: What an account loses around the ring.
* `through_transfersOf_le`: What a caller moves through an account.
-/

namespace RowLedger

open Finset

namespace Decimal

theorem units_ofUInt64 (n : UInt64) : (ofUInt64 n).units = n.toNat * quantum 0 := by
  rw [units, atScale, signed, ofUInt64, if_neg Bool.false_ne_true, quantum]
  push_cast
  rfl

theorem units_ofInt64 (n : Int64) : (ofInt64 n).units = n.toInt * quantum 0 := by
  have hsigned : (ofInt64 n).signed = n.toInt := by
    simp only [signed, ofInt64, decide_eq_true_eq]
    split
    · omega
    · omega
  rw [units, atScale, hsigned, quantum]
  push_cast
  rfl

end Decimal

/-- A transfer of a whole amount up to a bound. -/
def Whole (most : Nat) (t : Transfer) : Prop :=
  ∃ amount : Nat, amount ≤ most ∧ t.amount.units = amount * Decimal.quantum 0

section Whole

variable {batch : List Transfer} {most : Nat}

theorem Whole.le {t : Transfer} (h : Whole most t) :
    t.amount.units ≤ most * Decimal.quantum 0 := by
  rcases h with ⟨amount, hle, hunits⟩
  rw [hunits]
  exact_mod_cast Nat.mul_le_mul_right _ hle

theorem gross_le_of_whole (h : ∀ t ∈ batch, Whole most t) :
    gross batch ≤ (batch.length * most : Nat) * Decimal.quantum 0 := by
  have hle : ∀ x ∈ batch.map fun t => t.amount.units, x ≤ (most : Int) * Decimal.quantum 0 := by
    intro x hx
    rcases List.mem_map.1 hx with ⟨t, ht, rfl⟩
    exact (h t ht).le
  calc gross batch
      ≤ (batch.map fun t => t.amount.units).length • ((most : Int) * Decimal.quantum 0) :=
        List.sum_le_card_nsmul _ _ hle
    _ = (batch.length * most : Nat) * Decimal.quantum 0 := by
        rw [List.length_map, nsmul_eq_mul, Nat.cast_mul, Int.mul_assoc]

/-- Whole amounts add up exactly. -/
theorem measured_of_whole (h : ∀ t ∈ batch, Whole most t)
    (hfits : batch.length * most < 2 ^ 96) : Measured 0 batch where
  multiple t ht := by
    rcases h t ht with ⟨amount, _, hunits⟩
    exact hunits ▸ Int.dvd_mul_left _ _
  fits := by
    refine Int.lt_of_le_of_lt (gross_le_of_whole h) ?_
    exact_mod_cast Nat.mul_lt_mul_of_pos_right hfits (Decimal.ten_pow_pos _)

end Whole

namespace Demo

/-- The account at a place. -/
def accountAt (i : Nat) : AccountId := ((i + 1 : Nat) : Int)

theorem accountAt_inj {i j : Nat} : accountAt i = accountAt j ↔ i = j := by
  rw [accountAt, accountAt, Int.natCast_inj, Nat.add_right_cancel_iff]

theorem mem_ids {n : Nat} {id : AccountId} : id ∈ ids n ↔ ∃ i < n, accountAt i = id := by
  rw [ids, List.mem_map]
  simp only [List.mem_range]
  rfl

theorem nodup_ids (n : Nat) : (ids n).Nodup :=
  List.nodup_range.map fun _ _ hij => accountAt_inj.1 hij

theorem check_between {source target : Nat} {amount : UInt64} (hne : source ≠ target)
    (hpositive : 0 < amount.toNat) : (between source target amount).check = .ok () := by
  have hamount : (between source target amount).amount.isPositive = true := by
    rw [Decimal.isPositive_iff, between, Decimal.units_ofUInt64]
    exact_mod_cast Nat.mul_pos hpositive (Decimal.ten_pow_pos _)
  have hends : (between source target amount).source ≠ (between source target amount).target :=
    fun hsame => hne (accountAt_inj.1 hsame)
  rw [Transfer.check, if_pos hamount, if_neg hends]

theorem whole_between {source target most : Nat} {amount : UInt64} (hle : amount.toNat ≤ most) :
    Whole most (between source target amount) := ⟨amount.toNat, hle, Decimal.units_ofUInt64 amount⟩

section Ring

variable {n : Nat}

theorem ringAmount_bounds (i : Nat) :
    25 ≤ ((ringAmounts[i % ringAmounts.length]?).getD 0).toNat ∧
      ((ringAmounts[i % ringAmounts.length]?).getD 0).toNat ≤ 100 := by
  have hall : ∀ k < 4, 25 ≤ ((ringAmounts[k]?).getD 0).toNat ∧
      ((ringAmounts[k]?).getD 0).toNat ≤ 100 := by decide
  exact hall (i % 4) (Nat.mod_lt i (by decide))

/-- The transfer at a place of the ring. -/
def ringAt (n i : Nat) : Transfer :=
  between i ((i + 1) % n) ((ringAmounts[i % ringAmounts.length]?).getD 0)

theorem mem_ring {t : Transfer} (ht : t ∈ ring n) : ∃ i < n, t = ringAt n i := by
  rcases List.mem_map.1 ht with ⟨i, hi, rfl⟩
  exact ⟨i, List.mem_range.1 hi, rfl⟩

theorem length_ring : (ring n).length = n := by
  rw [ring, List.length_map, List.length_range]

/-- The next account around the ring is another one. -/
theorem ne_next (hn : 2 ≤ n) {i : Nat} (hi : i < n) : i ≠ (i + 1) % n := by
  by_cases hlast : i + 1 = n
  · rw [hlast, Nat.mod_self]
    omega
  · rw [Nat.mod_eq_of_lt (by omega)]
    omega

theorem whole_ring {t : Transfer} (ht : t ∈ ring n) : Whole 100 t := by
  rcases mem_ring ht with ⟨i, _, rfl⟩
  exact whole_between (ringAmount_bounds i).2

theorem checkAll_ring (hn : 2 ≤ n) : Transfer.checkAll (ring n) = .ok () := by
  refine Transfer.checkAll_ok_iff.2 fun t ht => ?_
  rcases mem_ring ht with ⟨i, hi, rfl⟩
  exact check_between (ne_next hn hi) (Nat.lt_of_lt_of_le (by decide) (ringAmount_bounds i).1)

theorem units_ringAt (n i : Nat) : 25 * (Decimal.quantum 0 : Int) ≤ (ringAt n i).amount.units ∧
    (ringAt n i).amount.units ≤ 100 * (Decimal.quantum 0 : Int) := by
  rcases ringAmount_bounds i with ⟨hleast, hmost⟩
  rw [ringAt, between, Decimal.units_ofUInt64]
  exact ⟨by exact_mod_cast Nat.mul_le_mul_right _ hleast,
    by exact_mod_cast Nat.mul_le_mul_right _ hmost⟩

theorem units_ringAt_nonneg (n i : Nat) : 0 ≤ (ringAt n i).amount.units :=
  Int.le_trans (by exact_mod_cast Nat.zero_le _) (units_ringAt n i).1

/-- What goes through an account is a sum over the places of the ring. -/
theorem through_ring (side : Transfer → AccountId) (id : AccountId) :
    through side (ring n) id =
      ∑ i ∈ range n, if side (ringAt n i) = id then (ringAt n i).amount.units else 0 := by
  rw [through, ring, List.map_map]
  rfl

/-- Each account pays once. -/
theorem outflow_ring_le (n : Nat) (id : AccountId) :
    outflow (ring n) id ≤ 100 * (Decimal.quantum 0 : Int) := by
  rw [outflow, through_ring]
  by_cases hid : ∃ j < n, accountAt j = id
  · rcases hid with ⟨j, hj, rfl⟩
    rw [sum_eq_single j]
    · rw [if_pos (show (ringAt n j).source = accountAt j from rfl)]
      exact (units_ringAt n j).2
    · intro i _ hne
      exact if_neg fun hsame => hne (accountAt_inj.1 hsame)
    · intro hout
      exact absurd (mem_range.2 hj) hout
  · rw [sum_eq_zero]
    · exact_mod_cast Nat.zero_le _
    · intro i hi
      exact if_neg fun hsame => hid ⟨i, mem_range.1 hi, hsame⟩

/-- Each account is the next one of another one. -/
theorem exists_before {j : Nat} (hj : j < n) : ∃ i < n, (i + 1) % n = j := by
  cases j with
  | zero =>
      refine ⟨n - 1, by omega, ?_⟩
      rw [Nat.sub_add_cancel hj, Nat.mod_self]
  | succ i => exact ⟨i, by omega, Nat.mod_eq_of_lt hj⟩

/-- Each account is paid at least once. -/
theorem inflow_ring_ge {id : AccountId} (hid : id ∈ ids n) :
    25 * (Decimal.quantum 0 : Int) ≤ inflow (ring n) id := by
  rcases mem_ids.1 hid with ⟨j, hj, rfl⟩
  rcases exists_before hj with ⟨i, hi, hnext⟩
  have htarget : (ringAt n i).target = accountAt j := by
    rw [← hnext]
    rfl
  rw [inflow, through_ring]
  calc 25 * (Decimal.quantum 0 : Int)
      ≤ if (ringAt n i).target = accountAt j then (ringAt n i).amount.units else 0 := by
        rw [if_pos htarget]
        exact (units_ringAt n i).1
    _ ≤ _ := by
        refine single_le_sum (f := fun i => if (ringAt n i).target = accountAt j then
          (ringAt n i).amount.units else 0) (fun k _ => ?_) (mem_range.2 hi)
        split
        · exact units_ringAt_nonneg n k
        · exact Int.le_refl 0

/-- No account loses more around the ring than the largest amount is above the smallest. -/
theorem flow_ring_ge {id : AccountId} (hid : id ∈ ids n) :
    -75 * (Decimal.quantum 0 : Int) ≤ inflow (ring n) id - outflow (ring n) id := by
  have hin := inflow_ring_ge hid
  have hout := outflow_ring_le n id
  omega

/-- Only accounts that are there pay. -/
theorem outflow_ring_of_not_mem {id : AccountId} (hid : id ∉ ids n) : outflow (ring n) id = 0 := by
  rw [outflow, through_ring]
  refine sum_eq_zero fun i hi => if_neg fun hsame => hid ?_
  exact mem_ids.2 ⟨i, mem_range.1 hi, hsame⟩

theorem ends_ring {t : Transfer} (ht : t ∈ ring n) : t.source ∈ ids n ∧ t.target ∈ ids n := by
  rcases mem_ring ht with ⟨i, hi, rfl⟩
  exact ⟨mem_ids.2 ⟨i, hi, rfl⟩,
    mem_ids.2 ⟨(i + 1) % n, Nat.mod_lt _ (Nat.zero_lt_of_lt hi), rfl⟩⟩

end Ring

section Callers

variable {n caller count : Nat}

theorem mem_transfersOf {t : Transfer} (ht : t ∈ transfersOf n caller count) :
    ∃ source target place, source = (caller + place) % n ∧ target = (caller + 2 * place + 1) % n ∧
      source ≠ target ∧ t = between source target (.ofNat (place % 10 + 1)) := by
  rcases List.mem_filterMap.1 ht with ⟨place, _, hsome⟩
  rw [transferAt?] at hsome
  split at hsome
  next => simp at hsome
  next hne =>
    rw [Option.some.injEq] at hsome
    exact ⟨_, _, place, rfl, rfl, hne, hsome.symm⟩

theorem length_transfersOf_le (n caller count : Nat) :
    (transfersOf n caller count).length ≤ count := by
  have := List.length_filterMap_le (transferAt? n caller) (List.range count)
  rwa [List.length_range] at this

/-- The amounts of the callers are those from one to ten. -/
theorem amount_bounds (place : Nat) :
    0 < (UInt64.ofNat (place % 10 + 1)).toNat ∧ (UInt64.ofNat (place % 10 + 1)).toNat ≤ 10 := by
  have hlt : place % 10 < 10 := Nat.mod_lt _ (by decide)
  rw [UInt64.toNat_ofNat_of_lt' (Nat.lt_of_le_of_lt hlt (by decide))]
  omega

theorem check_transfersOf {t : Transfer} (ht : t ∈ transfersOf n caller count) :
    t.check = .ok () := by
  rcases mem_transfersOf ht with ⟨source, target, place, _, _, hne, rfl⟩
  exact check_between hne (amount_bounds place).1

theorem checkAll_transfersOf (n caller count : Nat) :
    Transfer.checkAll (transfersOf n caller count) = .ok () :=
  Transfer.checkAll_ok_iff.2 fun _ ht => check_transfersOf ht

theorem whole_transfersOf {t : Transfer} (ht : t ∈ transfersOf n caller count) : Whole 10 t := by
  rcases mem_transfersOf ht with ⟨source, target, place, _, _, _, rfl⟩
  exact whole_between (amount_bounds place).2

theorem ends_transfersOf (hn : 0 < n) {t : Transfer} (ht : t ∈ transfersOf n caller count) :
    t.source ∈ ids n ∧ t.target ∈ ids n := by
  rcases mem_transfersOf ht with ⟨source, target, place, hsource, htarget, _, rfl⟩
  exact ⟨mem_ids.2 ⟨source, hsource ▸ Nat.mod_lt _ hn, rfl⟩,
    mem_ids.2 ⟨target, htarget ▸ Nat.mod_lt _ hn, rfl⟩⟩

/-- No caller moves more through an account than ten for each of its transfers. -/
theorem through_transfersOf_le (side : Transfer → AccountId) (id : AccountId) :
    through side (transfersOf n caller count) id ≤
      (10 * count : Nat) * (Decimal.quantum 0 : Int) := by
  have hpositive : ∀ t ∈ transfersOf n caller count, 0 < t.amount.units := fun t ht =>
    (of_checkAll (checkAll_transfersOf n caller count) t ht).1
  have hlength : (transfersOf n caller count).length * 10 ≤ 10 * count := by
    have := length_transfersOf_le n caller count
    omega
  calc through side (transfersOf n caller count) id
      ≤ gross (transfersOf n caller count) := through_le_gross hpositive id
    _ ≤ ((transfersOf n caller count).length * 10 : Nat) * (Decimal.quantum 0 : Int) :=
        gross_le_of_whole fun _ ht => whole_transfersOf ht
    _ ≤ (10 * count : Nat) * (Decimal.quantum 0 : Int) := by
        exact_mod_cast Nat.mul_le_mul_right _ hlength

/-- Nothing goes out of an account that is not there. -/
theorem through_transfersOf_of_not_mem (hn : 0 < n) {id : AccountId} (hid : id ∉ ids n) :
    through (·.source) (transfersOf n caller count) id = 0 := by
  refine List.sum_eq_zero fun x hx => ?_
  rcases List.mem_map.1 hx with ⟨t, ht, rfl⟩
  refine if_neg ?_
  rintro rfl
  exact hid (ends_transfersOf hn ht).1

end Callers

end Demo

end RowLedger
