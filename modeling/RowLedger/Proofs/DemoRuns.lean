import RowLedger.Proofs.CrewRuns
import RowLedger.Proofs.CrossingRuns
import RowLedger.Proofs.DemoTransfers

/-!
# The demonstration succeeds

With enough money in every account the demonstration succeeds, whatever the
settings are besides, and in whatever order its callers move. Around the ring
no account loses more than 75, and the callers take no more than ten with each
transfer, so nobody is ever overdrawn. The ordered transfers never close a
cycle, so none of them is run twice. The crossing may deadlock or not; it moves
money only between its accounts. So the total is the same in the end, and since
all sums are exact, it is found to be the same.

Between two stages no transaction is open (`Calm`), and that is all that a
stage has to know of those before it, besides the accounts.

## Main definitions

* `Calm`: A service between two stages.
* `Demo.Funded`: Settings with enough money.
* `Demo.Succeeds`: All that there is to see.

## Theorems

* `total?_exact`: Exact balances are summed up exactly.
* `ringStage_ok`: The batch around the ring is committed.
* `secure_crew`: The callers cannot fail.
* `succeeds_of_funded`: The demonstration succeeds.
-/

namespace RowLedger

open Finset

section Total

variable {scale : Nat} {total : Int}

/-- Balances are summed up exactly if the sum fits. -/
theorem sum_exact (accounts : List Account) (sum : Decimal)
    (hdvd : (Decimal.quantum scale : Int) ∣ sum.units) (hnonneg : 0 ≤ sum.units)
    (hall : ∀ a ∈ accounts, (Decimal.quantum scale : Int) ∣ a.balance.units ∧ 0 ≤ a.balance.units)
    (hfits : sum.units + (accounts.map fun a => a.balance.units).sum < Decimal.capacity scale) :
    ∃ last, accounts.foldlM (fun sum account => sum.add? account.balance) sum = some last ∧
      last.units = sum.units + (accounts.map fun a => a.balance.units).sum := by
  induction accounts generalizing sum with
  | nil => exact ⟨sum, rfl, (Int.add_zero _).symm⟩
  | cons a rest ih =>
      rcases hall a List.mem_cons_self with ⟨hdvd', hnonneg'⟩
      have hall' := fun b hb => hall b (List.mem_cons_of_mem a hb)
      have hrest : 0 ≤ (rest.map fun a => a.balance.units).sum := by
        refine List.sum_nonneg fun x hx => ?_
        rcases List.mem_map.1 hx with ⟨b, hb, rfl⟩
        exact (hall' b hb).2
      rw [List.map_cons, List.sum_cons] at hfits ⊢
      rcases Decimal.add?_exact hdvd hdvd' (by omega) with ⟨next, hnext, hunits⟩
      rcases ih next (by rw [hunits]; exact Int.dvd_add hdvd hdvd') (by omega) hall' (by omega) with
        ⟨last, hlast, htotal⟩
      refine ⟨last, ?_, by omega⟩
      rw [List.foldlM_cons, hnext]
      exact hlast

/-- The total of exact balances is found exactly. -/
theorem total?_exact {s : Store} (h : Balanced scale total s.accounts)
    (htotal : total < Decimal.capacity scale) :
    ∃ sum, s.total? = some sum ∧ sum.units = total := by
  have hsum : (s.accounts.values.map fun a => a.balance.units).sum = total := by
    rw [← h.total, exactTotal, Table.values, List.map_map]
    rfl
  have hzero : Decimal.zero.units = 0 := rfl
  have hall : ∀ a ∈ s.accounts.values,
      (Decimal.quantum scale : Int) ∣ a.balance.units ∧ 0 ≤ a.balance.units := by
    intro a ha
    rcases List.mem_map.1 ha with ⟨e, he, rfl⟩
    have hget := (Table.mem_entries_iff s.accounts e.1 e.2).1 he
    exact ⟨h.multiple e.1 e.2 hget, h.nonneg e.1 e.2 hget⟩
  rcases sum_exact s.accounts.values .zero (by rw [hzero]; exact Int.dvd_zero _)
    (by rw [hzero]) hall (by rw [hzero, hsum]; omega) with ⟨sum, htold, hunits⟩
  exact ⟨sum, htold, by omega⟩

end Total

/-- A service between two stages: no transaction is open, and all sums are exact. -/
structure Calm (scale : Nat) (total : Int) (s : Service) : Prop where
  plan : s.plan = .empty
  consistent : s.store.Consistent
  acyclic : s.store.locks.Acyclic
  up : s.store.WaitsUp
  due : s.store.conflictsDue = 0
  nobody : ∀ tx, s.store.live.get? tx = none
  balanced : Balanced scale total s.store.accounts

section Calm

variable {scale : Nat} {total : Int} {s s' : Service}

theorem calm_congr (h : Calm scale total s) (hplan : s'.plan = s.plan)
    (hstore : s'.store = s.store) : Calm scale total s' where
  plan := hplan.trans h.plan
  consistent := hstore ▸ h.consistent
  acyclic := hstore ▸ h.acyclic
  up := hstore ▸ h.up
  due := hstore ▸ h.due
  nobody := hstore ▸ h.nobody
  balanced := hstore ▸ h.balanced

theorem calm_ofAccounts {accounts : Table AccountId Account} (hplan : s.plan = .empty)
    (hstore : s.store = .ofAccounts accounts) (hbalanced : Balanced scale total accounts) :
    Calm scale total s where
  plan := hplan
  consistent := hstore ▸ Store.consistent_ofAccounts accounts
  acyclic := hstore ▸ Store.acyclic_empty
  up := by
    intro tx t row hlive
    rw [hstore] at hlive
    simp [Store.ofAccounts, Store.empty] at hlive
  due := hstore ▸ rfl
  nobody tx := by
    rw [hstore]
    rfl
  balanced := hstore ▸ hbalanced

/-- After a batch that was alone nobody is there either. -/
theorem calm_paid {batch : List Transfer} (h : Calm scale total s)
    (hpaid : Work.Paid scale total batch s.start.1 s.start.2 s') : Calm scale total s' := by
  rcases hpaid.events with ⟨events, hstore, hevents⟩
  have hafter : s'.store = s.store.after (.start :: events) := hstore
  refine ⟨hpaid.plan, ?_, ?_, hpaid.up, ?_, ?_, hpaid.balanced⟩
  · rw [hafter]
    exact Store.consistent_after h.consistent _
  · rw [hafter]
    exact Store.acyclic_after h.acyclic _
  · rw [hafter]
    exact Store.conflictsDue_after (fun e he =>
      Event.ne_inject_of_mine ((List.mem_cons.1 he).imp_right (hevents e))) h.due
  · intro other
    by_cases heq : other = s.start.1
    · rw [heq]
      exact hpaid.ended
    · rw [← Option.not_isSome_iff_eq_none, hpaid.others other heq,
        Option.not_isSome_iff_eq_none]
      refine (Store.live_start s.store other).trans ?_
      rw [if_neg fun hc => heq hc.symm, h.nobody]

/-- Callers that are done leave nobody behind. -/
theorem calm_of_done {goal : AccountId → Int} {b : Bench} {callers : List Caller}
    (h : Secure scale total goal b callers) (hdone : ∀ c ∈ callers, c.todo = []) :
    Calm scale total b.service where
  plan := h.plan
  consistent := h.consistent
  acyclic := h.acyclic
  up := h.up
  due := h.due
  nobody := Crew.nobody_of_done h hdone
  balanced := h.balanced

end Calm

/-- Accounts that are put in with the same balance, and nothing else. -/
theorem Store.foldl_insert (ids : List AccountId) (balance : Decimal)
    (accounts : Table AccountId Account) :
    ∃ accounts', (ids.map fun id => (id, balance)).foldl (fun s row => s.insert row.1 row.2)
        (ofAccounts accounts) = ofAccounts accounts' ∧
      ∀ id, accounts'.get? id =
        if id ∈ ids then some (.fresh id balance) else accounts.get? id := by
  induction ids generalizing accounts with
  | nil => exact ⟨accounts, rfl, by simp⟩
  | cons first rest ih =>
      rcases ih (accounts.insert first (.fresh first balance)) with ⟨accounts', hfold, hget⟩
      refine ⟨accounts', hfold, fun id => ?_⟩
      rw [hget, Table.get?_insert]
      by_cases hrest : id ∈ rest
      · rw [if_pos hrest, if_pos (List.mem_cons_of_mem _ hrest)]
      · rw [if_neg hrest]
        by_cases hfirst : first = id
        · rw [if_pos hfirst, if_pos (hfirst ▸ List.mem_cons_self), hfirst]
        · rw [if_neg hfirst, if_neg]
          rw [List.mem_cons, not_or]
          exact ⟨fun hc => hfirst hc.symm, hrest⟩

namespace Demo

/-- Settings with enough money for all that the demonstration moves. -/
structure Funded (settings : Settings) : Prop where
  inMemory : settings.databaseUrl = none
  accounts : 2 ≤ settings.demo.accounts
  /-- Settings are whole numbers of 64 bits with a sign. -/
  accountsFit : settings.demo.accounts < 2 ^ 63
  balanceFits : settings.demo.initialBalance < 2 ^ 63
  /-- What the ring may take, and ten for each transfer of the callers. -/
  funds : 75 + 10 * (settings.demo.callers * settings.demo.transfersPerCaller : Nat) ≤
    settings.demo.initialBalance
  total : settings.demo.accounts * settings.demo.initialBalance < 2 ^ 96

section Seeded

variable {settings : Settings} (h : Funded settings)
include h

theorem units_opening :
    (Decimal.ofInt64 (.ofInt settings.demo.initialBalance)).units =
      settings.demo.initialBalance * Decimal.quantum 0 := by
  have hfunds := h.funds
  have hfits := h.balanceFits
  rw [Decimal.units_ofInt64, Int64.toInt_ofInt_of_le (by omega) hfits]

theorem accounts_toNat : (settings.demo.accounts.toNat : Int) = settings.demo.accounts :=
  Int.toNat_of_nonneg (Int.le_trans (by decide) h.accounts)

theorem two_le : 2 ≤ settings.demo.accounts.toNat := by
  have := h.accounts
  omega

omit h in
/-- The store in the beginning, and its accounts. -/
theorem exists_seeded (d : DemoSettings) : ∃ accounts, seeded d = .ofAccounts accounts ∧
    ∀ id, accounts.get? id = if id ∈ ids d.accounts.toNat then
      some (.fresh id (.ofInt64 (.ofInt d.initialBalance))) else none :=
  Store.foldl_insert (ids d.accounts.toNat) (.ofInt64 (.ofInt d.initialBalance)) .empty

/-- In the beginning every account has the same. -/
theorem unitsOf_seeded (id : AccountId) : unitsOf (seeded settings.demo).accounts id =
    if id ∈ ids settings.demo.accounts.toNat then
      settings.demo.initialBalance * (Decimal.quantum 0 : Int) else 0 := by
  rcases exists_seeded settings.demo with ⟨accounts, hstore, hget⟩
  rw [hstore]
  by_cases hid : id ∈ ids settings.demo.accounts.toNat
  · rw [if_pos hid, ← units_opening h]
    exact unitsOf_of_some ((hget id).trans (if_pos hid))
  · rw [if_neg hid]
    exact unitsOf_of_none ((hget id).trans (if_neg hid))

omit h in
theorem isSome_seeded (d : DemoSettings) (id : AccountId) :
    ((seeded d).accounts.get? id).isSome = true ↔ id ∈ ids d.accounts.toNat := by
  rcases exists_seeded d with ⟨accounts, hstore, hget⟩
  rw [hstore]
  change (accounts.get? id).isSome = true ↔ _
  rw [hget]
  split
  next hid => exact iff_of_true rfl hid
  next hid => exact iff_of_false Bool.false_ne_true hid

/-- What all accounts have together. -/
def holdings (d : DemoSettings) : Int := d.accounts * d.initialBalance * Decimal.quantum 0

theorem exactTotal_seeded :
    exactTotal (seeded settings.demo).accounts = holdings settings.demo := by
  have hids : ∀ id, ((seeded settings.demo).accounts.get? id).isSome = true →
      id ∈ (ids settings.demo.accounts.toNat).toFinset := fun id hsome =>
    List.mem_toFinset.2 ((isSome_seeded settings.demo id).1 hsome)
  have hlength : (ids settings.demo.accounts.toNat).length = settings.demo.accounts.toNat := by
    rw [ids, List.length_map, List.length_range]
  calc exactTotal (seeded settings.demo).accounts
      = ∑ id ∈ (ids settings.demo.accounts.toNat).toFinset,
          unitsOf (seeded settings.demo).accounts id := exactTotal_eq hids
    _ = ∑ _id ∈ (ids settings.demo.accounts.toNat).toFinset,
          settings.demo.initialBalance * (Decimal.quantum 0 : Int) :=
        sum_congr rfl fun id hid => by
          rw [unitsOf_seeded h, if_pos (List.mem_toFinset.1 hid)]
    _ = holdings settings.demo := by
        rw [sum_const, List.toFinset_card_of_nodup (nodup_ids _), hlength, nsmul_eq_mul,
          accounts_toNat h, holdings, Int.mul_assoc]

theorem holdings_lt : holdings settings.demo < Decimal.capacity 0 := by
  have hquantum : (0 : Int) < Decimal.quantum 0 := by exact_mod_cast Decimal.ten_pow_pos _
  rw [holdings, Decimal.capacity]
  push_cast
  exact Int.mul_lt_mul_of_pos_right h.total hquantum

theorem balanced_seeded : Balanced 0 (holdings settings.demo) (seeded settings.demo).accounts := by
  rcases exists_seeded settings.demo with ⟨accounts, hstore, hget⟩
  have hunits : ∀ id account, (seeded settings.demo).accounts.get? id = some account →
      account.balance.units = settings.demo.initialBalance * Decimal.quantum 0 := by
    intro id account haccount
    rw [hstore] at haccount
    change accounts.get? id = some account at haccount
    rw [hget] at haccount
    split at haccount
    · rw [← Option.some.inj haccount]
      exact units_opening h
    · simp at haccount
  refine ⟨fun id account haccount => ?_, fun id account haccount => ?_, exactTotal_seeded h⟩
  · rw [hunits id account haccount]
    exact Int.dvd_mul_left _ _
  · have hfunds := h.funds
    rw [hunits id account haccount]
    exact Int.mul_nonneg (by omega) (by exact_mod_cast Nat.zero_le _)

theorem calm_seeded {s : Service} (hplan : s.plan = .empty)
    (hstore : s.store = seeded settings.demo) : Calm 0 (holdings settings.demo) s := by
  rcases exists_seeded settings.demo with ⟨accounts, hseeded, _⟩
  have hbalanced := balanced_seeded h
  rw [hseeded] at hbalanced
  exact calm_ofAccounts hplan (hstore.trans hseeded) hbalanced

theorem measured_ring : Measured 0 (ring settings.demo.accounts.toNat) := by
  have hfits := h.accountsFit
  refine measured_of_whole (fun t ht => whole_ring ht) ?_
  rw [length_ring]
  omega

/-- Nobody is overdrawn around the ring. -/
theorem affords_ring :
    Affords (seeded settings.demo).accounts (ring settings.demo.accounts.toNat) := by
  refine ⟨?_, fun id => ?_⟩
  · rintro id ⟨t, ht, hside⟩
    rw [isSome_seeded]
    rcases hside with rfl | rfl
    · exact (ends_ring ht).1
    · exact (ends_ring ht).2
  · rw [unitsOf_seeded h]
    by_cases hid : id ∈ ids settings.demo.accounts.toNat
    · have hflow := flow_ring_ge hid
      have hfunds : 75 * (Decimal.quantum 0 : Int) ≤
          settings.demo.initialBalance * Decimal.quantum 0 :=
        Int.mul_le_mul_of_nonneg_right (by have := h.funds; omega)
          (by exact_mod_cast Nat.zero_le _)
      rw [if_pos hid]
      omega
    · have hin : 0 ≤ inflow (ring settings.demo.accounts.toNat) id :=
        through_nonneg (fun t ht => (of_checkAll (checkAll_ring (two_le h)) t ht).1) id
      rw [if_neg hid, outflow_ring_of_not_mem hid]
      omega

/-- What the batch around the ring leaves behind. -/
structure Ringed (d : DemoSettings) (b b' : Bench) : Prop where
  calm : Calm 0 (holdings d) b'.service
  tally : b'.tally = b.tally
  there : ∀ id, (b'.service.store.accounts.get? id).isSome = true ↔ id ∈ ids d.accounts.toNat
  units : ∀ id, unitsOf b'.service.store.accounts id = unitsOf (seeded d).accounts id +
    (inflow (ring d.accounts.toNat) id - outflow (ring d.accounts.toNat) id)

/-- The batch around the ring is committed. -/
theorem ringStage_ok {b : Bench} (hplan : b.service.plan = .empty)
    (hstore : b.service.store = seeded settings.demo) :
    ∃ b', ringStage settings.demo b = (.ok (), b') ∧ Ringed settings.demo b b' := by
  have hcalm := calm_seeded h hplan hstore
  have hsome : ring settings.demo.accounts.toNat ≠ [] := by
    rw [← List.length_pos_iff, length_ring]
    exact Nat.lt_of_lt_of_le (by decide) (two_le h)
  have hsuits : b.service.store.Suits
      (.assured 0 (holdings settings.demo) (ring settings.demo.accounts.toNat)) :=
    Work.suits_assured hcalm.consistent hcalm.up hcalm.due hcalm.balanced
      (hstore ▸ affords_ring h)
  rcases Operation.performed_batch (holdings_lt h) (measured_ring h) (checkAll_ring (two_le h))
    hsome hplan hsuits hcalm.nobody with ⟨s', hperform, hpaid⟩
  have haccounts : b.service.start.2.store.accounts = (seeded settings.demo).accounts := by
    rw [← hstore]
    rfl
  refine ⟨tell { b with service := s' } (s'.store.accounts.values.map fun a =>
    .balanceAfterBatch a.id a.balance), ?_, calm_congr (calm_paid hcalm hpaid) rfl rfl, rfl, ?_, ?_⟩
  · rw [ringStage, hperform]
  · intro id
    change (s'.store.accounts.get? id).isSome = true ↔ _
    rw [hpaid.there, haccounts, isSome_seeded]
  · intro id
    change unitsOf s'.store.accounts id = _
    rw [hpaid.units, haccounts]

/-- What is still to go out of the accounts of the callers. -/
theorem outstanding_crew_le (b : Bench) (id : AccountId) :
    outstanding (·.source) (crew settings.demo b).callers id ≤
      (settings.demo.initialBalance - 75) * Decimal.quantum 0 := by
  have hle : ∀ x ∈ (crew settings.demo b).callers.map fun c => through (·.source) c.todo id,
      x ≤ (10 * settings.demo.transfersPerCaller : Nat) * (Decimal.quantum 0 : Int) := by
    intro x hx
    rcases List.mem_map.1 hx with ⟨c, hc, rfl⟩
    rcases List.mem_map.1 hc with ⟨caller, _, rfl⟩
    exact through_transfersOf_le _ id
  have hlength : ((crew settings.demo b).callers.map fun c => through (·.source) c.todo id).length =
      settings.demo.callers := by
    rw [List.length_map, crew, List.length_map, List.length_range]
  calc outstanding (·.source) (crew settings.demo b).callers id
      ≤ settings.demo.callers •
          ((10 * settings.demo.transfersPerCaller : Nat) * (Decimal.quantum 0 : Int)) := by
        rw [← hlength]
        exact List.sum_le_card_nsmul _ _ hle
    _ = (10 * (settings.demo.callers * settings.demo.transfersPerCaller : Nat)) *
          Decimal.quantum 0 := by
        rw [nsmul_eq_mul]
        push_cast
        ring
    _ ≤ (settings.demo.initialBalance - 75) * Decimal.quantum 0 :=
        Int.mul_le_mul_of_nonneg_right (by have := h.funds; omega)
          (by exact_mod_cast Nat.zero_le _)

/-- What the accounts will be when all callers are done. -/
def goal (d : DemoSettings) (b : Bench) (id : AccountId) : Int :=
  unitsOf b.service.store.accounts id +
    (outstanding (·.target) (crew d b).callers id - outstanding (·.source) (crew d b).callers id)

omit h in
theorem mem_crew {b : Bench} {c : Caller} (hc : c ∈ (crew settings.demo b).callers) :
    ∃ caller, c = .ofTransfers
      (transfersOf settings.demo.accounts.toNat caller settings.demo.transfersPerCaller) := by
  rcases List.mem_map.1 hc with ⟨caller, _, rfl⟩
  exact ⟨caller, rfl⟩

theorem viable_crew {b b' : Bench} (hringed : Ringed settings.demo b b') {c : Caller}
    (hc : c ∈ (crew settings.demo b').callers) {t : Transfer} (ht : t ∈ c.todo) :
    t.Viable 0 b'.service.store.accounts := by
  rcases mem_crew hc with ⟨caller, rfl⟩
  have hwhole : ∀ t' ∈ [t], Whole 10 t' := fun t' ht' =>
    List.mem_singleton.1 ht' ▸ whole_transfersOf ht
  rcases ends_transfersOf (Nat.lt_of_lt_of_le (by decide) (two_le h)) ht with ⟨hsource, htarget⟩
  exact ⟨check_transfersOf ht, measured_of_whole hwhole (show 1 * 10 < 2 ^ 96 by decide),
    (hringed.there _).2 hsource, (hringed.there _).2 htarget⟩

/-- There is enough money for all callers once the ring is closed. -/
theorem covered_crew {b b' : Bench} (hringed : Ringed settings.demo b b') (id : AccountId) :
    outstanding (·.source) (crew settings.demo b').callers id ≤
      unitsOf b'.service.store.accounts id := by
  by_cases hid : id ∈ ids settings.demo.accounts.toNat
  · have hflow := flow_ring_ge hid
    have hout := outstanding_crew_le h b' id
    have hsplit : (settings.demo.initialBalance - 75) * (Decimal.quantum 0 : Int) =
        settings.demo.initialBalance * Decimal.quantum 0 - 75 * Decimal.quantum 0 :=
      Int.sub_mul _ _ _
    rw [hringed.units, unitsOf_seeded h, if_pos hid]
    omega
  · have hzero : outstanding (·.source) (crew settings.demo b').callers id = 0 := by
      refine List.sum_eq_zero fun x hx => ?_
      rcases List.mem_map.1 hx with ⟨c, hc, rfl⟩
      rcases mem_crew hc with ⟨caller, rfl⟩
      exact through_transfersOf_of_not_mem (Nat.lt_of_lt_of_le (by decide) (two_le h)) hid
    rw [hzero]
    exact hringed.calm.balanced.unitsOf_nonneg id

/-- The callers cannot fail. -/
theorem secure_crew {b b' : Bench} (hringed : Ringed settings.demo b b')
    (htally : b.tally = .zero) :
    Secure 0 (holdings settings.demo) (goal settings.demo b') b'
      (crew settings.demo b').callers := by
  have hnone : (crew settings.demo b').callers.filterMap Caller.tx? = [] := by
    rw [List.filterMap_eq_nil_iff]
    intro c hc
    rcases mem_crew hc with ⟨caller, rfl⟩
    rfl
  refine ⟨hringed.calm.plan, hringed.tally.trans htally, hringed.calm.consistent,
    hringed.calm.acyclic, hringed.calm.up, hringed.calm.due, hringed.calm.balanced, ?_,
    fun c hc t ht => viable_crew h hringed hc ht, covered_crew h hringed, fun _ => rfl, ?_, ?_⟩
  · intro c hc
    rcases mem_crew hc with ⟨caller, rfl⟩
    exact .idle _
  · rw [hnone]
    exact List.nodup_nil
  · intro tx hlive
    rw [hringed.calm.nobody] at hlive
    simp at hlive

end Seeded

/-- All transfers of the callers. -/
def generated (d : DemoSettings) : List Transfer :=
  (List.range d.callers).flatMap fun caller =>
    transfersOf d.accounts.toNat caller d.transfersPerCaller

/-- The demonstration before its first stage. -/
def opened (environment : String) (d : DemoSettings) : Bench :=
  let b := tell (.ofStore .empty) [.started environment]
  tell { b with service := { b.service with store := seeded d } }
    [.storeReady "memory" d.accounts.toNat]

/-- The demonstration after the batch around the ring. -/
def ringed (environment : String) (d : DemoSettings) : Bench :=
  (ringStage d (opened environment d)).2

/-- The callers after the moves of a schedule. -/
def scheduled (schedule : List Nat) (environment : String) (settings : Settings) : Crew :=
  (crew settings.demo (ringed environment settings.demo)).follow settings.backoff schedule

/-- The callers after they have been left to themselves. -/
def finished (schedule : List Nat) (environment : String) (settings : Settings) : Crew :=
  (scheduled schedule environment settings).finish settings.backoff

/-- The demonstration after the stage of the callers, with the number of their failures. -/
def stressed (schedule : List Nat) (environment : String) (settings : Settings) : Nat × Bench :=
  stressStage schedule settings.backoff settings.demo (ringed environment settings.demo)

/-- The crossing under way, with its sides taken up again in some order. -/
def crossed (order : List Direction) (pause : Nat) (s : Service) : Service :=
  (order.foldl Crossing.resume
    (Crossing.start 1 2 (.ofUInt64 10) (.ofUInt64 10) pause s)).service

/-- All that there is to see of a demonstration that succeeds. -/
structure Succeeds (schedule : List Nat) (environment : String) (settings : Settings) : Prop where
  ring : (ringStage settings.demo (opened environment settings.demo)).1 = .ok ()
  valid : Transfer.checkAll (generated settings.demo) = .ok ()
  /-- At no time has a transfer failed, or is an attempt a second one. -/
  firstAttempts : ∀ c ∈ (scheduled schedule environment settings).callers,
    c.failures = 0 ∧ ∀ call, c.call = some call → call.attempt = 0
  /-- In the end all transfers have been made. -/
  done : ∀ c ∈ (finished schedule environment settings).callers, c.todo = [] ∧ c.failures = 0
  /-- Each of them has been made once, and so have those around the ring. -/
  moved : ∀ id, unitsOf (finished schedule environment settings).bench.service.store.accounts id =
    unitsOf (seeded settings.demo).accounts id +
      (inflow (Demo.ring settings.demo.accounts.toNat ++ generated settings.demo) id -
        outflow (Demo.ring settings.demo.accounts.toNat ++ generated settings.demo) id)
  /-- Neither conflicts nor retries have been counted, before the end or in the end. -/
  unhindered : (scheduled schedule environment settings).bench.tally = .zero ∧
    (finished schedule environment settings).bench.tally = .zero
  /-- However the crossing comes out, the last look finds nothing wrong. -/
  anyCrossing : ∀ order pause before, (seeded settings.demo).total? = some before →
    (audit before (stressed schedule environment settings).1
      { (stressed schedule environment settings).2 with
        service := crossed order pause (stressed schedule environment settings).2.service }).failure
      = none
  /-- All this is what the run is made of, whatever databases there are. -/
  stages : ∃ before, (seeded settings.demo).total? = some before ∧ ∀ database,
    run database schedule environment settings =
      audit before (stressed schedule environment settings).1
        (crossingStage settings.simulator (stressed schedule environment settings).2)
  passes : ∀ database, (run database schedule environment settings).failure = none
  tally : ∀ database, (run database schedule environment settings).bench.tally = .zero
  total : ∀ database,
    exactTotal (run database schedule environment settings).bench.service.store.accounts =
      exactTotal (seeded settings.demo).accounts

theorem through_generated (side : Transfer → AccountId) (d : DemoSettings) (b : Bench)
    (id : AccountId) : through side (generated d) id = outstanding side (crew d b).callers id := by
  have hall : ∀ callers : List Nat,
      through side (callers.flatMap fun caller =>
        transfersOf d.accounts.toNat caller d.transfersPerCaller) id =
      outstanding side (callers.map fun caller =>
        .ofTransfers (transfersOf d.accounts.toNat caller d.transfersPerCaller)) id := by
    intro callers
    induction callers with
    | nil => rfl
    | cons caller rest ih =>
        rw [List.flatMap_cons, through_append, ih, List.map_cons, outstanding_cons]
        rfl
  exact hall (List.range d.callers)

theorem checkAll_generated (d : DemoSettings) : Transfer.checkAll (generated d) = .ok () := by
  refine Transfer.checkAll_ok_iff.2 fun t ht => ?_
  rcases List.mem_flatMap.1 ht with ⟨caller, _, hmem⟩
  exact check_transfersOf hmem

/-- Both transfers of the crossing are such as a batch may have. -/
theorem crossing_transfers : (Transfer.checkAll [⟨1, 2, .ofUInt64 10⟩] = .ok () ∧
      Measured 0 [⟨1, 2, .ofUInt64 10⟩]) ∧
    Transfer.checkAll [⟨2, 1, .ofUInt64 10⟩] = .ok () ∧ Measured 0 [⟨2, 1, .ofUInt64 10⟩] := by
  have hwhole : ∀ source target : Nat, ∀ t ∈ [between source target 10], Whole 10 t := by
    intro source target t ht
    rw [List.mem_singleton.1 ht]
    exact whole_between (Nat.le_refl 10)
  exact ⟨⟨rfl, measured_of_whole (hwhole 0 1) (show 1 * 10 < 2 ^ 96 by decide)⟩,
    rfl, measured_of_whole (hwhole 1 0) (show 1 * 10 < 2 ^ 96 by decide)⟩

section Stages

variable {settings : Settings} (h : Funded settings)
include h

/-- The last look finds nothing wrong if the balances have been kept. -/
theorem audit_passes {before : Decimal} {b : Bench}
    (hbefore : before.units = holdings settings.demo)
    (hbalanced : Balanced 0 (holdings settings.demo) b.service.store.accounts) :
    ∃ b', audit before 0 b = ⟨b', none⟩ ∧ b'.tally = b.tally ∧
      b'.service.store = b.service.store := by
  rcases total?_exact hbalanced (holdings_lt h) with ⟨after, hafter, hunits⟩
  have hsame : before.sameAmount after = true := by
    rw [Decimal.sameAmount, beq_iff_eq, hbefore, hunits]
  refine ⟨tell b [.totals before after], ?_, rfl, rfl⟩
  rw [audit, hafter]
  simp only [hsame, Bool.not_true, Bool.false_eq_true, ↓reduceIte, ne_eq, not_true_eq_false]

theorem crossed_balanced {s : Service} (hcalm : Calm 0 (holdings settings.demo) s)
    (order : List Direction) (pause : Nat) :
    Balanced 0 (holdings settings.demo) (crossed order pause s).store.accounts := by
  rcases crossing_transfers with ⟨⟨hforward, hmeasured⟩, hbackward, hmeasured'⟩
  exact (Crossing.sound_foldl (Crossing.sound_start (holdings_lt h) hforward hbackward hmeasured
    hmeasured' pause hcalm.plan hcalm.consistent hcalm.balanced) order).suits.accounts

/-- The crossing on the clock keeps the balances, if it is wanted at all. -/
theorem crossingStage_balanced (simulator : SimulatorSettings) {b : Bench}
    (hcalm : Calm 0 (holdings settings.demo) b.service) :
    Balanced 0 (holdings settings.demo) (crossingStage simulator b).service.store.accounts ∧
      (crossingStage simulator b).tally = b.tally := by
  rcases crossing_transfers with ⟨⟨hforward, hmeasured⟩, hbackward, hmeasured'⟩
  rw [crossingStage]
  split
  · exact ⟨Crossing.balanced_run (holdings_lt h) hforward hbackward hmeasured hmeasured'
      simulator.lockDelayMillis.toNat hcalm.plan hcalm.consistent hcalm.balanced, rfl⟩
  · exact ⟨hcalm.balanced, rfl⟩

theorem ringStage_opened (environment : String) :
    ringStage settings.demo (opened environment settings.demo) =
        (.ok (), ringed environment settings.demo) ∧
      Ringed settings.demo (opened environment settings.demo)
        (ringed environment settings.demo) := by
  rcases ringStage_ok h (b := opened environment settings.demo) rfl rfl with ⟨b', hstage, hringed⟩
  rw [ringed, hstage]
  exact ⟨rfl, hringed⟩

theorem secure_scheduled (schedule : List Nat) (environment : String) :
    Secure 0 (holdings settings.demo) (goal settings.demo (ringed environment settings.demo))
      (scheduled schedule environment settings).bench
      (scheduled schedule environment settings).callers := by
  have hsecure := secure_crew h (ringStage_opened h environment).2 rfl
  exact Crew.secure_follow (holdings_lt h) hsecure settings.backoff schedule

theorem secure_finished (schedule : List Nat) (environment : String) :
    Secure 0 (holdings settings.demo) (goal settings.demo (ringed environment settings.demo))
        (finished schedule environment settings).bench
        (finished schedule environment settings).callers ∧
      ∀ c ∈ (finished schedule environment settings).callers, c.todo = [] :=
  Crew.secure_finish (holdings_lt h) (secure_scheduled h schedule environment) settings.backoff

/-- No transfer of the callers has failed, and nobody is left. -/
theorem stressed_calm (schedule : List Nat) (environment : String) :
    (stressed schedule environment settings).1 = 0 ∧
      Calm 0 (holdings settings.demo) (stressed schedule environment settings).2.service ∧
      (stressed schedule environment settings).2.tally = .zero := by
  rcases secure_finished h schedule environment with ⟨hsecure, hdone⟩
  exact ⟨Crew.failures_of_secure hsecure, calm_congr (calm_of_done hsecure hdone) rfl rfl,
    hsecure.tally⟩

/-- The whole of it is made of its stages. -/
theorem run_eq_audit (schedule : List Nat) (environment : String) :
    ∃ before, (seeded settings.demo).total? = some before ∧
      before.units = holdings settings.demo ∧ ∀ database,
      run database schedule environment settings =
        audit before (stressed schedule environment settings).1
          (crossingStage settings.simulator (stressed schedule environment settings).2) := by
  rcases total?_exact (balanced_seeded h) (holdings_lt h) with ⟨before, hbefore, hunits⟩
  have hopened : (opened environment settings.demo).service.store.total? = some before := hbefore
  have hstage := (ringStage_opened h environment).1
  have hmany : ¬ settings.demo.accounts < 2 := Int.not_lt.2 h.accounts
  rw [opened] at hopened hstage
  refine ⟨before, hbefore, hunits, fun database => ?_⟩
  rw [run]
  simp only [if_neg hmany, h.inMemory, runInMemory, hopened, hstage]
  rfl

/-- The last look finds nothing wrong. -/
theorem run_passes (database : String → UInt32 → DatabaseAnswer) (schedule : List Nat)
    (environment : String) : (run database schedule environment settings).failure = none ∧
      (run database schedule environment settings).bench.tally = .zero ∧
      Balanced 0 (holdings settings.demo)
        (run database schedule environment settings).bench.service.store.accounts := by
  rcases run_eq_audit h schedule environment with ⟨before, _, hunits, hrun⟩
  rcases stressed_calm h schedule environment with ⟨hfailures, hcalm, htally⟩
  rcases crossingStage_balanced h settings.simulator hcalm with ⟨hbalanced, htally'⟩
  rcases audit_passes h hunits hbalanced with ⟨b', haudit, hsame, hstore⟩
  rw [hrun database, hfailures, haudit]
  exact ⟨rfl, hsame.trans (htally'.trans htally), hstore ▸ hbalanced⟩

end Stages

/-- Two accounts with just enough money for two callers and three transfers of each. -/
def modest : Settings where
  logLevel := "info"
  logDir := "logs"
  logFile := "ledger.log"
  useJson := false
  rotation := "daily"
  traceRetries := false
  databaseUrl := none
  maxConnections := 5
  retry := .default
  simulator := .default
  demo := ⟨2, 135, 2, 3⟩

end Demo

end RowLedger
