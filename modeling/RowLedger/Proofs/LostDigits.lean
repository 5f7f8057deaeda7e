import RowLedger.Proofs.Conservation
import RowLedger.Proofs.NearSums
import RowLedger.Proofs.RunningSums
import RowLedger.Proofs.Walks

/-!
# Lost digits

What a batch that has succeeded moves, when its amounts are arbitrary. The net
delta of an account is a running sum, and the balance is added to it at the
end; either may need more digits than there are, and what is given up then is
lost. So a batch need not conserve money: two amounts that cancel may take a
third one with them that was added in between (`digits_lost`).

An account for which all digits fit gets what the batch moves, exactly. That is
a condition on the account alone: its balance and the amounts that go through
it are multiples of one quantum, and all of them together are below its
capacity (`Ample`). And no account is further off than by half a unit of money
for each time that the batch mentions it.

## Main definitions

* `postingsOf`: The sides of a batch at an account.
* `Ample`: All digits fit at an account.
* `Contract.unaware`: A contract that knows nothing of the others.

## Theorems

* `near_runningSum`: How far a running sum may be off.
* `exact_runningSum`: A running sum for which all digits fit is exact.
* `sum_signed`: The sides of an account amount to what the batch moves.
* `cleared_of_performed`: A batch that has succeeded was checked and applied.
* `change_cleared`: What becomes of an account.
* `movement_of_batch`: What a batch moves.
* `digits_lost`: A batch that moves something else than it says.
-/

namespace RowLedger

open Decimal

/-- The sides of a batch at an account. -/
def postingsOf (batch : List Transfer) (id : AccountId) : List Posting :=
  (postings batch).filter fun p => decide (p.id = id)

/-- What a posting adds, exactly. -/
def Posting.signed (p : Posting) : Int := if p.incoming then p.amount.units else -p.amount.units

/-- All digits fit at an account: its balance and the amounts that go through it are multiples of
a quantum, and all of them together are below its capacity. -/
structure Ample (s : Nat) (accounts : Table AccountId Account) (batch : List Transfer)
    (id : AccountId) : Prop where
  balance : (quantum s : Int) ∣ unitsOf accounts id
  amounts : ∀ t ∈ batch, t.source = id ∨ t.target = id → (quantum s : Int) ∣ t.amount.units
  fits : (unitsOf accounts id).natAbs + (inflow batch id + outflow batch id) < capacity s

/-- A contract that knows nothing of the others but that they respect locks. -/
def Contract.unaware : Contract where
  accounts := fun _ => True
  locked := True
  asks := fun _ _ => True
  victims := True
  conflicts := True

section Sums

theorem apply_near {p : Posting} {sum next : Decimal} (h : p.apply sum = some next) :
    Near 1 next.units (sum.units + p.signed) := by
  rw [Posting.apply] at h
  rw [Posting.signed]
  split at h
  · rename_i hin
    rw [if_pos hin]
    exact add?_near h
  · rename_i hout
    rw [if_neg hout, ← Int.sub_eq_add_neg]
    exact sub?_near h

/-- A posting on top of nothing is exact. -/
theorem apply_zero {p : Posting} {next : Decimal} (h : p.apply .zero = some next) :
    next.units = p.signed := by
  rw [Posting.apply] at h
  rw [Posting.signed]
  split at h
  · rename_i hin
    rw [add?_zero_left rfl, Option.some.injEq] at h
    rw [if_pos hin, h]
  · rename_i hout
    rw [if_neg hout]
    rw [sub?] at h
    split at h
    · rename_i hzero
      rw [add?_zero_left rfl, Option.some.injEq] at h
      rw [← h, (isZero_iff _).1 hzero]
      rfl
    · rw [add?_zero_left rfl, Option.some.injEq] at h
      rw [← h, units_neg]

theorem apply_exact {s : Nat} {p : Posting} {sum next : Decimal} (h : p.apply sum = some next)
    (hsum : (quantum s : Int) ∣ sum.units) (hamount : (quantum s : Int) ∣ p.amount.units)
    (hfits : sum.units.natAbs + p.amount.units.natAbs < capacity s) :
    next.units = sum.units + p.signed := by
  rw [Posting.apply] at h
  rw [Posting.signed]
  split at h
  · rename_i hin
    rcases add?_exact hsum hamount (by omega) with ⟨c, hc, hunits⟩
    rw [h, Option.some.injEq] at hc
    rw [if_pos hin, hc, hunits]
  · rename_i hout
    rcases sub?_exact hsum hamount (by omega) with ⟨c, hc, hunits⟩
    rw [h, Option.some.injEq] at hc
    rw [if_neg hout, hc, hunits, Int.sub_eq_add_neg]

theorem dvd_signed {q : Int} {p : Posting} (h : q ∣ p.amount.units) : q ∣ p.signed := by
  rw [Posting.signed]
  split
  · exact h
  · exact Int.dvd_neg.2 h

-- Both inductions are on the postings to come, from the sum that the earlier ones have left.
/-- Each posting takes a running sum half a unit further off at most. -/
theorem near_fold {ps : List Posting} {sum last : Decimal}
    (h : ps.foldlM (fun sum p => p.apply sum) sum = some last) :
    Near ps.length last.units (sum.units + (ps.map Posting.signed).sum) := by
  induction ps generalizing sum with
  | nil =>
      rw [List.foldlM_nil, Option.pure_def, Option.some.injEq] at h
      rw [h, List.map_nil, List.sum_nil, Int.add_zero]
      exact near_refl _
  | cons p rest ih =>
      rw [List.foldlM_cons, Option.bind_eq_bind, Option.bind_eq_some_iff] at h
      rcases h with ⟨next, hnext, hrest⟩
      have hnear := near_add (apply_near hnext) (rest.map Posting.signed).sum
      have := near_trans (ih hrest) hnear
      rwa [Int.add_assoc, ← List.sum_cons, ← List.map_cons] at this

/-- A running sum for which all digits fit is exact. -/
theorem exact_fold {s : Nat} {ps : List Posting} {sum last : Decimal}
    (h : ps.foldlM (fun sum p => p.apply sum) sum = some last)
    (hsum : (quantum s : Int) ∣ sum.units)
    (hamounts : ∀ p ∈ ps, (quantum s : Int) ∣ p.amount.units ∧ 0 ≤ p.amount.units)
    (hfits : sum.units.natAbs + (ps.map fun p => p.amount.units).sum < capacity s) :
    last.units = sum.units + (ps.map Posting.signed).sum := by
  induction ps generalizing sum with
  | nil =>
      rw [List.foldlM_nil, Option.pure_def, Option.some.injEq] at h
      rw [h, List.map_nil, List.sum_nil, Int.add_zero]
  | cons p rest ih =>
      rw [List.foldlM_cons, Option.bind_eq_bind, Option.bind_eq_some_iff] at h
      rcases h with ⟨next, hnext, hrest⟩
      rcases hamounts p List.mem_cons_self with ⟨hdvd, hnonneg⟩
      have hamounts' : ∀ p' ∈ rest, (quantum s : Int) ∣ p'.amount.units ∧ 0 ≤ p'.amount.units :=
        fun p' hp' => hamounts p' (List.mem_cons_of_mem _ hp')
      have hlater : 0 ≤ (rest.map fun p => p.amount.units).sum := by
        refine List.sum_nonneg ?_
        intro x hx
        rcases List.mem_map.1 hx with ⟨p', hp', rfl⟩
        exact (hamounts' p' hp').2
      rw [List.map_cons, List.sum_cons] at hfits
      have hexact := apply_exact hnext hsum hdvd (by omega)
      have hsigned : p.signed.natAbs = p.amount.units.natAbs := by
        rw [Posting.signed]
        split
        · rfl
        · exact Int.natAbs_neg _
      have hlast := ih hrest (by rw [hexact]; exact Int.dvd_add hsum (dvd_signed hdvd)) hamounts'
        (by rw [hexact]; omega)
      rw [hlast, hexact, Int.add_assoc, List.map_cons, List.sum_cons]

variable {batch : List Transfer} {id : AccountId}

/-- The sides of an account amount to what the batch moves. -/
theorem sum_signed (batch : List Transfer) (id : AccountId) :
    ((postingsOf batch id).map Posting.signed).sum = inflow batch id - outflow batch id ∧
      ((postingsOf batch id).map fun p => p.amount.units).sum =
        inflow batch id + outflow batch id := by
  induction batch with
  | nil => exact ⟨rfl, rfl⟩
  | cons t rest ih =>
      have hsides : postings (t :: rest) =
          ⟨t.source, t.amount, false⟩ :: ⟨t.target, t.amount, true⟩ :: postings rest := rfl
      rw [postingsOf] at ih ⊢
      rw [inflow, outflow, through_cons, through_cons, hsides, List.filter_cons, List.filter_cons]
      rw [inflow, outflow] at ih
      by_cases hs : t.source = id
      · by_cases ht : t.target = id
        · simp only [hs, ht, decide_true, ↓reduceIte, List.map_cons, List.sum_cons,
            Posting.signed, Bool.false_eq_true]
          omega
        · simp only [hs, ht, decide_true, decide_false, ↓reduceIte, List.map_cons, List.sum_cons,
            Posting.signed, Bool.false_eq_true]
          omega
      · by_cases ht : t.target = id
        · simp only [hs, ht, decide_true, decide_false, ↓reduceIte, List.map_cons, List.sum_cons,
            Posting.signed, Bool.false_eq_true]
          omega
        · simp only [hs, ht, decide_false, ↓reduceIte, Bool.false_eq_true]
          omega

theorem mem_postingsOf {p : Posting} (hp : p ∈ postingsOf batch id) :
    ∃ t ∈ batch, p.amount = t.amount ∧ (t.source = id ∨ t.target = id) := by
  rw [postingsOf, List.mem_filter, decide_eq_true_eq] at hp
  rcases hp with ⟨hp, hid⟩
  rcases List.mem_flatMap.1 hp with ⟨t, ht, hside⟩
  simp only [Transfer.sides, List.mem_cons, List.not_mem_nil, or_false] at hside
  rcases hside with rfl | rfl
  · exact ⟨t, ht, rfl, Or.inl hid⟩
  · exact ⟨t, ht, rfl, Or.inr hid⟩

/-- The first posting of an account is exact, and each other one takes its sum half a unit further
off at most. -/
theorem near_runningSum {delta : Decimal} (h : runningSum (postings batch) id = some delta) :
    Near ((postingsOf batch id).length - 1) delta.units (inflow batch id - outflow batch id) := by
  rw [← (sum_signed batch id).1]
  rw [runningSum, sumFrom] at h
  change (postingsOf batch id).foldlM (fun sum p => p.apply sum) Decimal.zero = some delta at h
  cases hps : postingsOf batch id with
  | nil =>
      rw [hps, List.foldlM_nil, Option.pure_def, Option.some.injEq] at h
      rw [← h]
      exact near_refl _
  | cons p rest =>
      rw [hps, List.foldlM_cons, Option.bind_eq_bind, Option.bind_eq_some_iff] at h
      rcases h with ⟨first, hfirst, hrest⟩
      have := near_fold hrest
      rwa [apply_zero hfirst, ← List.sum_cons, ← List.map_cons] at this

theorem exact_runningSum {s : Nat} {accounts : Table AccountId Account} {delta : Decimal}
    (hpositive : ∀ t ∈ batch, 0 < t.amount.units) (hample : Ample s accounts batch id)
    (h : runningSum (postings batch) id = some delta) :
    delta.units = inflow batch id - outflow batch id := by
  have hamounts : ∀ p ∈ postingsOf batch id,
      (quantum s : Int) ∣ p.amount.units ∧ 0 ≤ p.amount.units := by
    intro p hp
    rcases mem_postingsOf hp with ⟨t, ht, hamount, hid⟩
    rw [hamount]
    exact ⟨hample.amounts t ht hid, Int.le_of_lt (hpositive t ht)⟩
  have hzero : Decimal.zero.units = 0 := rfl
  have := exact_fold h (by rw [hzero]; exact Int.dvd_zero _) hamounts (by
    rw [hzero, (show ((postings batch).filter fun p => decide (p.id = id)) =
      postingsOf batch id from rfl), (sum_signed batch id).2]
    have := hample.fits
    omega)
  rwa [hzero, Int.zero_add, (show ((postings batch).filter fun p => decide (p.id = id)) =
    postingsOf batch id from rfl), (sum_signed batch id).1] at this

end Sums

/-- A batch that has succeeded had nothing to do, or it was checked and applied. -/
theorem cleared_of_performed {transfers : List Transfer} {s s' : Service}
    (hplan : s.plan = .empty) (hconsistent : s.store.Consistent)
    (hok : (Operation.batch transfers).perform s = (.ended (.ok ()), s')) :
    (transfers = [] ∧ s' = s) ∨ ∃ deltas locked,
      Cleared .unaware transfers s.store.accounts s'.store.accounts deltas locked := by
  have hoperation : (OrderedCall.batch transfers).operation = .batch transfers := rfl
  cases hbatch : Operation.batch transfers with
  | settled outcome =>
      rw [hbatch, Operation.perform, Prod.mk.injEq, Work.Progress.ended.injEq] at hok
      rcases settled_ordered (hoperation.trans hbatch) with ⟨_, hempty⟩ | ⟨o, herror⟩
      · exact Or.inl ⟨hempty, hok.2.symm⟩
      · rw [hok.1] at herror
        simp at herror
  | inTransaction body =>
      have hsuits : s.store.Suits .unaware := ⟨hconsistent, trivial, Or.inl trivial, Or.inl trivial⟩
      have hmeets := meets_ordered (c := .unaware) (fun _ _ _ => trivial)
        (fun _ _ _ _ _ _ => trivial) (hoperation.trans hbatch) s.store.accounts
      rcases Work.under_start hsuits hmeets with ⟨hsuits', hunder⟩
      have hwalks := Work.walks_run s.start.1 body s.start.2
      rw [hbatch, Operation.perform] at hok
      simp only at hok
      generalize hrun : body.run s.start.1 s.start.2 = result at hok hwalks
      rcases result with ⟨progress, s₁⟩
      rw [Prod.mk.injEq] at hok
      rcases hok with ⟨rfl, rfl⟩
      rcases Work.under_walk hwalks hplan hsuits' hunder with
        ⟨_, _, ⟨stage, hreached, hfollows⟩, _⟩
      have hbooked : Booked .unaware transfers (.ok ()) stage := hreached.meets
      cases hbooked with
      | @done before after deltas locked _ hcleared =>
          refine Or.inr ⟨deltas, locked, ?_⟩
          rcases hfollows with ⟨_, hchange⟩ | ⟨_, hchange⟩
          · simp [Stage.change] at hchange
          · rw [Stage.change, Option.some.injEq, Prod.mk.injEq] at hchange
            rcases hchange with ⟨rfl, rfl⟩
            rwa [Service.drop, Store.release_accounts]

section Cleared

variable {c : Contract} {batch : List Transfer} {before after : Table AccountId Account}
  {deltas : Deltas} {accounts : List Locked}

/-- What becomes of an account: it stays as it is if its running sum is zero, and otherwise the sum
is added to its balance. -/
theorem change_cleared (hcleared : Cleared c batch before after deltas accounts)
    (hlocked : c.locked) (id : AccountId) :
    ∃ delta, runningSum (postings batch) id = some delta ∧
      ((delta.units = 0 ∧ unitsOf after id = unitsOf before id) ∨
        (delta.isZero = false ∧ ∃ old next, before.get? id = some old ∧
          old.balance.add? delta = some next ∧ unitsOf after id = next.units)) := by
  have hsum := (netDeltas_ok hcleared.net id).1
  refine ⟨_, hsum, ?_⟩
  cases hget : deltas.get? id with
  | none =>
      refine Or.inl ⟨Deltas.units_current_of_none hget, unitsOf_unwritten hcleared ?_⟩
      simp [hget]
  | some delta =>
      rw [Deltas.current_of_some hget]
      cases hzero : delta.isZero with
      | true =>
          refine Or.inl ⟨(isZero_iff delta).1 hzero, unitsOf_unwritten hcleared ?_⟩
          simp [hget, matters, hzero]
      | false =>
          have hmem : (id, delta) ∈ deltas.entries.filter matters :=
            List.mem_filter.2 ⟨(Table.mem_entries_iff deltas id delta).2 hget, by
              rw [matters, hzero]
              rfl⟩
          rcases exists_locked hcleared hget with ⟨l, hl, rfl, _⟩
          rcases hcleared.reads hlocked l hl with ⟨old, hold, _⟩
          rcases Store.get?_applyAll (deltas.ascending.filter _) hcleared.applied hmem hold with
            ⟨new, hnew, hafter⟩
          cases hnext : old.balance.add? delta with
          | none => simp [Store.applied, hnext] at hnew
          | some next =>
              refine Or.inr ⟨rfl, old, next, hold, hnext, ?_⟩
              rw [unitsOf_of_some hafter, Store.balance_applied hnew hnext]

/-- No account is off by more than half a unit for each time that it is mentioned. -/
theorem near_cleared (hcleared : Cleared c batch before after deltas accounts) (hlocked : c.locked)
    (id : AccountId) : Near (postingsOf batch id).length (unitsOf after id - unitsOf before id)
      (inflow batch id - outflow batch id) := by
  rcases change_cleared hcleared hlocked id with
    ⟨delta, hsum, ⟨hzero, hsame⟩ | ⟨hnonzero, old, next, hold, hnext, hafter⟩⟩
  · have := near_runningSum hsum
    rw [hzero] at this
    rw [hsame, Int.sub_self]
    exact near_mono (Nat.sub_le _ _) this
  · have hsome : 0 < (postingsOf batch id).length := by
      rw [List.length_pos_iff]
      intro hnil
      rw [runningSum, sumFrom, (show ((postings batch).filter fun p => decide (p.id = id)) =
        postingsOf batch id from rfl), hnil, List.foldlM_nil, Option.pure_def,
        Option.some.injEq] at hsum
      rw [← hsum] at hnonzero
      simp [Decimal.isZero, Decimal.zero] at hnonzero
    have hadded := near_add (add?_near hnext) (-old.balance.units)
    rw [show old.balance.units + delta.units + -old.balance.units = delta.units from by omega,
      ← Int.sub_eq_add_neg] at hadded
    have := near_trans hadded (near_runningSum hsum)
    rwa [Nat.add_sub_cancel' hsome, ← hafter, ← unitsOf_of_some hold] at this

/-- An account for which all digits fit gets what the batch moves. -/
theorem exact_cleared {s : Nat} (hcleared : Cleared c batch before after deltas accounts)
    (hlocked : c.locked) {id : AccountId} (hample : Ample s before batch id) :
    unitsOf after id - unitsOf before id = inflow batch id - outflow batch id := by
  have hpositive : ∀ t ∈ batch, 0 < t.amount.units := fun t ht =>
    (of_checkAll hcleared.checked t ht).1
  rcases change_cleared hcleared hlocked id with
    ⟨delta, hsum, ⟨hzero, hsame⟩ | ⟨_, old, next, hold, hnext, hafter⟩⟩
  · rw [hsame, Int.sub_self, ← hzero, exact_runningSum hpositive hample hsum]
  · have hdelta := exact_runningSum hpositive hample hsum
    have hbalance := hample.balance
    have hfits := hample.fits
    have hin : 0 ≤ inflow batch id := through_nonneg hpositive id
    have hout : 0 ≤ outflow batch id := through_nonneg hpositive id
    have hdvd : (quantum s : Int) ∣ delta.units := by
      rw [hdelta, ← (sum_signed batch id).1]
      refine List.dvd_sum ?_
      intro x hx
      rcases List.mem_map.1 hx with ⟨p, hp, rfl⟩
      rcases mem_postingsOf hp with ⟨t, ht, hamount, hid⟩
      exact dvd_signed (hamount ▸ hample.amounts t ht hid)
    rw [unitsOf_of_some hold] at hbalance hfits
    rcases add?_exact hbalance hdvd (by omega) with ⟨exact, hexact, hunits⟩
    rw [hnext, Option.some.injEq] at hexact
    rw [hafter, unitsOf_of_some hold, hexact, hunits, hdelta]
    omega

/-- If all digits fit at every account that is mentioned, nothing is lost. -/
theorem exactTotal_cleared (hcleared : Cleared c batch before after deltas accounts)
    (hlocked : c.locked) (hample : ∀ id, Mentions batch id → ∃ s, Ample s before batch id) :
    exactTotal after = exactTotal before := by
  have hmoves : ∀ id,
      unitsOf after id = unitsOf before id + (inflow batch id - outflow batch id) := by
    intro id
    by_cases hmentioned : Mentions batch id
    · rcases hample id hmentioned with ⟨s, hs⟩
      have := exact_cleared hcleared hlocked hs
      omega
    · have hnear := near_cleared hcleared hlocked id
      have hnone : postingsOf batch id = [] := by
        rw [List.eq_nil_iff_forall_not_mem]
        intro p hp
        rcases mem_postingsOf hp with ⟨t, ht, _, hid⟩
        exact hmentioned ⟨t, ht, hid⟩
      rw [hnone, List.length_nil, Near, Nat.zero_mul] at hnear
      omega
  have hthere : ∀ id, (after.get? id).isSome = true → id ∈ concerned before batch := by
    intro id hsome
    rw [Store.isSome_applyAll hcleared.applied] at hsome
    exact mem_concerned_of_account hsome
  rw [exactTotal_eq hthere, Finset.sum_congr rfl fun id _ => hmoves id,
    sum_results (Finset.Subset.refl _)]

end Cleared

namespace Operation

/-- What a batch moves that has succeeded, whatever its amounts and whatever has happened to the
store before. No account is off by more than half a unit of money for each time that the batch
mentions it; an account for which all digits fit gets what it should; and if that is true of all
accounts that are mentioned, money is conserved. -/
theorem movement_of_batch (events : List Event) {transfers : List Transfer} {s' : Service}
    (hok : (batch transfers).perform (.ofStore (Store.empty.after events)) =
      (.ended (.ok ()), s')) :
    (∀ id, Near (postingsOf transfers id).length
      (unitsOf s'.store.accounts id - unitsOf (Store.empty.after events).accounts id)
      (inflow transfers id - outflow transfers id)) ∧
    (∀ s id, Ample s (Store.empty.after events).accounts transfers id →
      unitsOf s'.store.accounts id - unitsOf (Store.empty.after events).accounts id =
        inflow transfers id - outflow transfers id) ∧
    ((∀ id, Mentions transfers id →
        ∃ s, Ample s (Store.empty.after events).accounts transfers id) →
      exactTotal s'.store.accounts = exactTotal (Store.empty.after events).accounts) := by
  have hconsistent : (Store.empty.after events).Consistent :=
    Store.consistent_after Store.consistent_empty events
  rcases cleared_of_performed (s := .ofStore (Store.empty.after events)) rfl hconsistent hok with
    ⟨rfl, rfl⟩ | ⟨deltas, locked, hcleared⟩
  · have hsame : (Service.ofStore (Store.empty.after events)).store =
      Store.empty.after events := rfl
    refine ⟨fun id => ?_, fun s id _ => ?_, fun _ => rfl⟩
    · rw [hsame, Int.sub_self]
      exact near_refl _
    · rw [hsame, Int.sub_self]
      rfl
  · exact ⟨near_cleared hcleared trivial, fun s id => exact_cleared hcleared trivial,
      exactTotal_cleared hcleared trivial⟩

/-- The most that an account can hold, but one. -/
def fortune : Decimal := (Decimal.ofParts? false (Decimal.bound - 2) 0).getD .zero

/-- A fortune, a purse with one, and two accounts that are empty. -/
def hoard : List Event :=
  [.insert 1 fortune, .insert 2 .zero, .insert 3 (.ofUInt64 1), .insert 4 .zero]

/-- The fortune goes through the second account, and a half comes in while it is there. -/
def passage : List Transfer :=
  [⟨1, 2, fortune⟩, ⟨3, 2, (Decimal.ofParts? false 5 1).getD .zero⟩, ⟨2, 4, fortune⟩]

/-- The purse is the account that has enough digits. -/
theorem movement_of_batch_passage : ∃ s',
    (batch passage).perform (.ofStore (Store.empty.after hoard)) = (.ended (.ok ()), s') ∧
    Ample 1 (Store.empty.after hoard).accounts passage 3 ∧
    unitsOf s'.store.accounts 3 - unitsOf (Store.empty.after hoard).accounts 3 =
      inflow passage 3 - outflow passage 3 ∧
    Near (postingsOf passage 2).length
      (unitsOf s'.store.accounts 2 - unitsOf (Store.empty.after hoard).accounts 2)
      (inflow passage 2 - outflow passage 2) := by
  have hok : (batch passage).perform (.ofStore (Store.empty.after hoard)) =
      (.ended (.ok ()), ((batch passage).perform (.ofStore (Store.empty.after hoard))).2) := rfl
  have hample : Ample 1 (Store.empty.after hoard).accounts passage 3 := by
    refine ⟨?_, ?_, ?_⟩ <;> decide +kernel
  rcases movement_of_batch hoard hok with ⟨hnear, hexact, _⟩
  exact ⟨_, hok, hample, hexact 1 3 hample, hnear 2⟩

/-- The batch succeeds, and all its transfers are valid. But the second account, which gets a half
more than it pays, has nothing in the end, and half a unit of money is gone: on top of the fortune
there was no digit left for it. -/
theorem digits_lost :
    (∀ t ∈ passage, t.check = .ok ()) ∧ ∃ s',
      (batch passage).perform (.ofStore (Store.empty.after hoard)) = (.ended (.ok ()), s') ∧
      unitsOf s'.store.accounts 2 - unitsOf (Store.empty.after hoard).accounts 2 ≠
        inflow passage 2 - outflow passage 2 ∧
      exactTotal s'.store.accounts ≠ exactTotal (Store.empty.after hoard).accounts := by
  have hok : (batch passage).perform (.ofStore (Store.empty.after hoard)) =
      (.ended (.ok ()), ((batch passage).perform (.ofStore (Store.empty.after hoard))).2) := rfl
  refine ⟨by decide +kernel, _, hok, ?_, ?_⟩
  · decide +kernel
  · decide +kernel

end Operation

end RowLedger
