import Mathlib.Algebra.Order.BigOperators.Group.Finset
import RowLedger.Proofs.BatchOutcome
import RowLedger.Proofs.DemoTransfers

/-!
# Net deltas in any order

The running sums of a batch take another way for each order of its transfers,
through other values, signs and scales. Where the sums are exact the way does
not matter: what an account ends with is what the batch moves, and that is a
sum over the transfers. So the net deltas of a batch and of the same batch in
another order name the same accounts and the same amounts, though perhaps with
another number of places.

Over all accounts the net deltas come to nothing. That is so for the exact
amounts, and also for the deltas added up one after another as they are
written, because no part of the accounts has a larger flow than the gross
amount, so none of the sums on the way is rounded.

## Theorems

* `keys_eq_of_mem_iff`: Tables with the same keys list them alike.
* `foldlM_add?_exact`: A row of sums is exact if all of its beginnings fit.
* `partial_flow_le`: No part of the accounts has a larger flow than the batch.
* `through_perm`, `measured_perm`, `checkAll_perm`: The order does not matter.
* `netDeltas_any_order`: Net deltas are exact in any order.
-/

namespace RowLedger

open Finset

/-- Tables with the same keys list them alike, since both list them in ascending order. -/
theorem Table.keys_eq_of_mem_iff {α β : Type} {t : Table AccountId α} {t' : Table AccountId β}
    (h : ∀ id, id ∈ t.keys ↔ id ∈ t'.keys) : t.keys = t'.keys := by
  have hperm : t.keys.Perm t'.keys := (List.perm_ext_iff_of_nodup t.nodup_keys t'.nodup_keys).2 h
  refine List.Perm.eq_of_pairwise ?_ t.pairwise_keys t'.pairwise_keys hperm
  exact fun _ _ _ _ hlt hgt => absurd (Int.lt_trans hlt hgt) (Int.lt_irrefl _)

-- Induction on the amounts to come. A beginning of them is one of the whole row without what has
-- been added already, which is in the sum.
/-- A row of sums is exact if the exact sum fits after each amount. -/
theorem Decimal.foldlM_add?_exact {s : Nat} (amounts : List Decimal) (sum : Decimal)
    (hsum : (quantum s : Int) ∣ sum.units) (hdvd : ∀ d ∈ amounts, (quantum s : Int) ∣ d.units)
    (hfits : ∀ first rest, amounts = first ++ rest →
      (sum.units + (first.map units).sum).natAbs < capacity s) :
    ∃ last, amounts.foldlM add? sum = some last ∧
      last.units = sum.units + (amounts.map units).sum := by
  induction amounts generalizing sum with
  | nil => exact ⟨sum, rfl, (Int.add_zero _).symm⟩
  | cons d amounts ih =>
      have hone := hfits [d] amounts rfl
      rw [List.map_singleton, List.sum_singleton] at hone
      rcases add?_exact hsum (hdvd d List.mem_cons_self) hone with ⟨next, hnext, hunits⟩
      have hmultiple : (quantum s : Int) ∣ next.units := by
        rw [hunits]
        exact Int.dvd_add hsum (hdvd d List.mem_cons_self)
      have hlater : ∀ first rest, amounts = first ++ rest →
          (next.units + (first.map units).sum).natAbs < capacity s := by
        intro first rest hsplit
        have := hfits (d :: first) rest (by rw [hsplit]; rfl)
        rwa [List.map_cons, List.sum_cons, ← Int.add_assoc, ← hunits] at this
      rcases ih next hmultiple (fun d' hd' => hdvd d' (List.mem_cons_of_mem d hd')) hlater with
        ⟨last, hlast, htotal⟩
      refine ⟨last, ?_, ?_⟩
      · rw [List.foldlM_cons, hnext]
        exact hlast
      · rw [htotal, hunits, List.map_cons, List.sum_cons, Int.add_assoc]

section Reordered

variable {batch batch' : List Transfer} (hperm : batch'.Perm batch)
include hperm

theorem through_perm (side : Transfer → AccountId) (id : AccountId) :
    through side batch' id = through side batch id :=
  (hperm.map _).sum_eq

theorem mentions_perm (id : AccountId) : Mentions batch' id ↔ Mentions batch id := by
  simp only [Mentions, hperm.mem_iff]

theorem measured_perm {s : Nat} (h : Measured s batch) : Measured s batch' where
  multiple t ht := h.multiple t (hperm.mem_iff.1 ht)
  fits := by
    have hgross : gross batch' = gross batch := (hperm.map _).sum_eq
    exact hgross ▸ h.fits

theorem checkAll_perm (h : Transfer.checkAll batch = .ok ()) :
    Transfer.checkAll batch' = .ok () :=
  Transfer.checkAll_ok_iff.2 fun t ht => Transfer.checkAll_ok_iff.1 h t (hperm.mem_iff.1 ht)

end Reordered

section Parts

variable {batch : List Transfer} (hpositive : ∀ t ∈ batch, 0 < t.amount.units)
include hpositive

/-- No more goes through some of the accounts than through all of them. -/
theorem partial_through_le (side : Transfer → AccountId) (ids : Finset AccountId) :
    ∑ id ∈ ids, through side batch id ≤ gross batch := by
  have hall : ∀ t ∈ batch, side t ∈ ids ∪ (batch.map side).toFinset := fun t ht =>
    mem_union_right _ (List.mem_toFinset.2 (List.mem_map.2 ⟨t, ht, rfl⟩))
  rw [← sum_through hall]
  exact sum_le_sum_of_subset_of_nonneg subset_union_left fun id _ _ => through_nonneg hpositive id

-- What goes into these accounts and what goes out of them are each between zero and the gross
-- amount.
/-- No part of the accounts has a larger flow than the gross amount. -/
theorem partial_flow_le (ids : Finset AccountId) :
    (∑ id ∈ ids, (inflow batch id - outflow batch id)).natAbs ≤ gross batch := by
  have h1 : 0 ≤ ∑ id ∈ ids, inflow batch id := sum_nonneg fun id _ => through_nonneg hpositive id
  have h2 : 0 ≤ ∑ id ∈ ids, outflow batch id := sum_nonneg fun id _ => through_nonneg hpositive id
  have h3 : ∑ id ∈ ids, inflow batch id ≤ gross batch := partial_through_le hpositive _ ids
  have h4 : ∑ id ∈ ids, outflow batch id ≤ gross batch := partial_through_le hpositive _ ids
  rw [sum_sub_distrib]
  omega

end Parts

section Values

variable {batch : List Transfer} {deltas : Deltas}

/-- The exact sum of some first net deltas is the flow of their accounts. -/
theorem sum_units_eq
    (hexact : ∀ id delta, deltas.get? id = some delta →
      delta.units = inflow batch id - outflow batch id)
    {first rest : List (AccountId × Decimal)} (hsplit : deltas.entries = first ++ rest) :
    (first.map fun e => e.2.units).sum =
      ∑ id ∈ (first.map (·.1)).toFinset, (inflow batch id - outflow batch id) := by
  have hnodup : (first.map (·.1)).Nodup := by
    have hkeys := deltas.nodup_keys
    rw [Table.keys, hsplit, List.map_append] at hkeys
    exact hkeys.of_append_left
  rw [List.sum_toFinset _ hnodup, List.map_map]
  congr 1
  refine List.map_congr_left fun e he => ?_
  refine hexact e.1 e.2 ((Table.mem_entries_iff deltas e.1 e.2).1 ?_)
  rw [hsplit]
  exact List.mem_append_left _ he

/-- Net deltas come to nothing, and so does their sum as decimals. -/
theorem sum_values {s : Nat} (hmeasured : Measured s batch)
    (hchecked : Transfer.checkAll batch = .ok ())
    (hkeys : ∀ id, id ∈ deltas.keys ↔ Mentions batch id)
    (hexact : ∀ id delta, deltas.get? id = some delta →
      delta.units = inflow batch id - outflow batch id) :
    (deltas.values.map Decimal.units).sum = 0 ∧
      ∃ sum, deltas.values.foldlM Decimal.add? Decimal.zero = some sum ∧
        sum.isZero = true := by
  have hzero : Decimal.zero.units = 0 := (Decimal.isZero_iff _).1 rfl
  have htotal : (deltas.values.map Decimal.units).sum = 0 := by
    rw [Table.values, List.map_map]
    refine (sum_units_eq hexact (List.append_nil _).symm).trans (sum_flow fun t ht => ?_)
    rw [List.mem_toFinset, List.mem_toFinset]
    exact ⟨(hkeys _).2 ⟨t, ht, Or.inl rfl⟩, (hkeys _).2 ⟨t, ht, Or.inr rfl⟩⟩
  have hdvd : ∀ d ∈ deltas.values, (Decimal.quantum s : Int) ∣ d.units := by
    intro d hd
    rcases List.mem_map.1 hd with ⟨e, he, rfl⟩
    rw [hexact e.1 e.2 ((Table.mem_entries_iff deltas e.1 e.2).1 he)]
    exact dvd_flow hmeasured e.1
  have hfits : ∀ first rest, deltas.values = first ++ rest →
      (Decimal.zero.units + (first.map Decimal.units).sum).natAbs < Decimal.capacity s := by
    intro first rest hsplit
    rcases List.map_eq_append_iff.1 hsplit with ⟨entries, entries', hentries, rfl, _⟩
    have hle := partial_flow_le (fun t ht => (of_checkAll hchecked t ht).1)
      (entries.map (·.1)).toFinset
    have hsum := sum_units_eq hexact hentries
    have hlt := hmeasured.fits
    rw [hzero, List.map_map, Int.zero_add]
    change (entries.map fun e : AccountId × Decimal => e.2.units).sum.natAbs < _
    rw [hsum]
    omega
  rcases Decimal.foldlM_add?_exact deltas.values .zero (by rw [hzero]; exact Int.dvd_zero _)
    hdvd hfits with ⟨sum, hfold, hunits⟩
  refine ⟨htotal, sum, hfold, ?_⟩
  rw [Decimal.isZero_iff, hunits, htotal, hzero]
  rfl

end Values

/-- Net deltas of a batch that is measured: one for each account that is mentioned, and each of
them exact. -/
theorem netDeltas_of_measured {s : Nat} {batch : List Transfer} (hmeasured : Measured s batch)
    (hchecked : Transfer.checkAll batch = .ok ()) :
    ∃ deltas, netDeltas batch = .ok deltas ∧ (∀ id, id ∈ deltas.keys ↔ Mentions batch id) ∧
      ∀ id delta, deltas.get? id = some delta →
        delta.units = inflow batch id - outflow batch id := by
  rcases netDeltas_exact hmeasured hchecked with ⟨deltas, hnet, hexact⟩
  refine ⟨deltas, hnet, ?_, ?_⟩
  · intro id
    rw [Table.mem_keys_iff]
    exact (netDeltas_ok hnet id).2
  · intro id delta hget
    rw [← hexact, Deltas.current_of_some hget]

/-- Net deltas are exact in any order. If the sums of a batch fit, every account that is mentioned
has a net delta, also one whose flows cancel, and no other account has; each is what goes in less
what goes out, and together they come to nothing. In every other order of the transfers the same
accounts have the same amounts. -/
theorem netDeltas_any_order {s : Nat} {batch : List Transfer} (hmeasured : Measured s batch)
    (hchecked : Transfer.checkAll batch = .ok ()) :
    ∃ deltas, netDeltas batch = .ok deltas ∧
      (∀ id, id ∈ deltas.keys ↔ ∃ t ∈ batch, t.source = id ∨ t.target = id) ∧
      (∀ id delta, deltas.get? id = some delta →
        delta.units = inflow batch id - outflow batch id) ∧
      (deltas.values.map Decimal.units).sum = 0 ∧
      (∃ sum, deltas.values.foldlM Decimal.add? Decimal.zero = some sum ∧
        sum.isZero = true) ∧
      ∀ batch', batch'.Perm batch → ∃ deltas', netDeltas batch' = .ok deltas' ∧
        deltas'.keys = deltas.keys ∧
        ∀ id delta delta', deltas.get? id = some delta → deltas'.get? id = some delta' →
          delta'.sameAmount delta = true := by
  rcases netDeltas_of_measured hmeasured hchecked with ⟨deltas, hnet, hkeys, hexact⟩
  rcases sum_values hmeasured hchecked hkeys hexact with ⟨htotal, hsum⟩
  refine ⟨deltas, hnet, hkeys, hexact, htotal, hsum, ?_⟩
  intro batch' hperm
  rcases netDeltas_of_measured (measured_perm hperm hmeasured) (checkAll_perm hperm hchecked) with
    ⟨deltas', hnet', hkeys', hexact'⟩
  refine ⟨deltas', hnet', Table.keys_eq_of_mem_iff fun id => ?_, ?_⟩
  · rw [hkeys', hkeys, mentions_perm hperm]
  · intro id delta delta' hget hget'
    have hin : inflow batch' id = inflow batch id := through_perm hperm _ id
    have hout : outflow batch' id = outflow batch id := through_perm hperm _ id
    rw [Decimal.sameAmount, beq_iff_eq, hexact id delta hget, hexact' id delta' hget', hin, hout]

/-- An amount too large for a third place. -/
def hugeAmount : Decimal := (Decimal.ofParts? false (2 ^ 94) 2).getD .zero

/-- A quarter, once with a place that it does not need. On top of the large amount that place is
given up again. The flows of the third account cancel. -/
def detour : List Transfer :=
  [⟨1, 2, hugeAmount⟩, ⟨3, 2, (Decimal.ofParts? false 250 3).getD .zero⟩,
    ⟨2, 3, (Decimal.ofParts? false 25 2).getD .zero⟩, ⟨2, 1, .ofUInt64 7⟩]

theorem netDeltas_any_order_detour :
    Measured 2 detour ∧ Transfer.checkAll detour = .ok () ∧
    ∃ deltas, netDeltas detour = .ok deltas ∧
      (∀ id, id ∈ deltas.keys ↔ ∃ t ∈ detour, t.source = id ∨ t.target = id) ∧
      (∀ id delta, deltas.get? id = some delta →
        delta.units = inflow detour id - outflow detour id) ∧
      (deltas.values.map Decimal.units).sum = 0 ∧
      (∃ sum, deltas.values.foldlM Decimal.add? Decimal.zero = some sum ∧
        sum.isZero = true) ∧
      ∀ batch', batch'.Perm detour → ∃ deltas', netDeltas batch' = .ok deltas' ∧
        deltas'.keys = deltas.keys ∧
        ∀ id delta delta', deltas.get? id = some delta → deltas'.get? id = some delta' →
          delta'.sameAmount delta = true := by
  have hmeasured : Measured 2 detour := by
    refine ⟨?_, ?_⟩ <;> decide +kernel
  exact ⟨hmeasured, rfl, netDeltas_any_order hmeasured rfl⟩

end RowLedger
