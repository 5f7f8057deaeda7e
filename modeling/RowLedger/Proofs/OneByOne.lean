import RowLedger.Proofs.Assured

/-!
# One by one

Transfers can be done one after another, each in a transaction of its own, or
as one batch. A batch is checked against its net deltas only, so it may pass
where one of its transfers alone does not, because the money for that one comes
in later. But it never fails where they pass, as long as sums are exact: if each
transfer goes through in its turn, so does the whole batch, and it leaves the
same balances.

They are the same numbers, though not always the same decimals, since the two
ways add up in different orders. What ties both to the transfers is that each
account gets exactly what they move (`Carried`). For transfers one by one this
adds up over the list. It also tells that the batch passes: its results are the
balances that the last transfer has left, and none of these is negative.

## Main definitions

* `Service.Unhindered`: A service in which nothing is in the way of a call.
* `Carried`: A batch has been carried out.
* `Work.booking`: What an operation does in its transaction.
* `Operation.performEach`: Operations one after another.

## Theorems

* `cleared_of_accepted`: What is accepted passes all checks.
* `carried_trans`, `carried_unique`: What two batches carry out adds up, and
  what one carries out is determined.
* `perform_booking`: With nothing in its way a batch fails for an objection, or
  it is carried out.
* `carried_each`: What single transfers carry out adds up.
* `batch_covers_each`: A batch passes where its transfers pass one by one.
-/

namespace RowLedger

/-- A service in which nothing is in the way of a call: no fault is planned, no conflict is due,
and no row is locked. -/
structure Service.Unhindered (s : Service) : Prop where
  plan : s.plan = .empty
  due : s.store.conflictsDue = 0
  free : ∀ row, s.store.locks.holders.get? row = none

/-- A batch has been carried out: its accounts are there, and each account has got what the batch
moves. -/
structure Carried (batch : List Transfer) (before after : Table AccountId Account) : Prop where
  there : ∀ id, Mentions batch id → (before.get? id).isSome = true
  same : ∀ id, (after.get? id).isSome = (before.get? id).isSome
  units : ∀ id, unitsOf after id = unitsOf before id + (inflow batch id - outflow batch id)

theorem Store.holder_of_unlocked {s : Store} (hrows : s.lockedRows = 0) (row : AccountId) :
    s.locks.holders.get? row = none := by
  have hnone : s.locks.holders.entries = [] := List.length_eq_zero_iff.1 hrows
  rw [Table.get?, hnone]
  rfl

/-- A batch that is accepted passes all checks. -/
theorem cleared_of_accepted {c : Contract} {before after : Table AccountId Account}
    {batch : List Transfer} {deltas : Deltas} (hchecked : Transfer.checkAll batch = .ok ())
    (hnet : netDeltas batch = .ok deltas) (haccepted : Accepted before batch)
    (hall : Store.applyAll before (deltas.entries.filter matters) = .ok after) :
    ∃ locked, Cleared c batch before after deltas locked := by
  cases hread : Work.readAll before deltas.entries with
  | error e =>
      have hrejected := rejected_of_missing hnet hread
      exact absurd hrejected (not_rejected_of_accepted haccepted)
  | ok locked =>
      rcases Work.readAll_ok hread with ⟨hentries, hbalances⟩
      have hreads : ∀ l ∈ locked, l.Reads before := by
        intro l hl
        rcases hbalances l hl with ⟨account, haccount, hbalance⟩
        exact ⟨account, haccount, by rw [Decimal.add?_zero, hbalance]⟩
      have hallowed : ∀ l ∈ locked, l.objection? = none := fun l hl =>
        allowed_of_accepted haccepted hnet (entry_of_locked hread hl) (hreads l hl)
      exact ⟨locked, hchecked, hnet, hentries, hallowed, fun _ => hreads, hall⟩

section Carried

variable {scale : Nat} {total : Int} {c : Contract} {batch first second : List Transfer}
  {before middle after after' : Table AccountId Account} {deltas : Deltas} {locked : List Locked}

theorem carried_nil (accounts : Table AccountId Account) : Carried [] accounts accounts where
  there := by simp [Mentions]
  same _ := rfl
  units id := by
    have hin : inflow [] id = 0 := rfl
    have hout : outflow [] id = 0 := rfl
    omega

/-- What two batches carry out one after the other is what they carry out together. -/
theorem carried_trans (h : Carried first before middle) (h' : Carried second middle after) :
    Carried (first ++ second) before after where
  there id hmentioned := by
    rcases hmentioned with ⟨t, ht, hid⟩
    rcases List.mem_append.1 ht with hfirst | hsecond
    · exact h.there id ⟨t, hfirst, hid⟩
    · rw [← h.same]
      exact h'.there id ⟨t, hsecond, hid⟩
  same id := (h'.same id).trans (h.same id)
  units id := by
    have hunits := h.units id
    have hunits' := h'.units id
    have hin : inflow (first ++ second) id = inflow first id + inflow second id :=
      through_append _ first second id
    have hout : outflow (first ++ second) id = outflow first id + outflow second id :=
      through_append _ first second id
    omega

/-- What a batch carries out is determined, up to how the numbers are written. -/
theorem carried_unique (h : Carried batch before after) (h' : Carried batch before after')
    (id : AccountId) :
    (after.get? id).map (·.balance.units) = (after'.get? id).map (·.balance.units) := by
  have hsame := (h.same id).trans (h'.same id).symm
  have hunits := (h.units id).trans (h'.units id).symm
  cases hafter : after.get? id with
  | none =>
      rw [hafter, Option.isSome_none, eq_comm, Option.isSome_eq_false_iff,
        Option.isNone_iff_eq_none] at hsame
      rw [hsame]
  | some account =>
      rw [hafter, Option.isSome_some, eq_comm, Option.isSome_iff_exists] at hsame
      rcases hsame with ⟨account', hafter'⟩
      rw [unitsOf_of_some hafter, unitsOf_of_some hafter'] at hunits
      rw [hafter', Option.map_some, Option.map_some, hunits]

/-- The accounts can afford a batch that leaves them balanced. -/
theorem affords_of_carried (h : Carried batch before after)
    (hbalanced : Balanced scale total after) : Affords before batch where
  there := h.there
  covered id := by
    rw [← h.units id]
    exact hbalanced.unitsOf_nonneg id

theorem carried_of_cleared (hcleared : Cleared c batch before after deltas locked)
    (hlocked : c.locked) (hbalanced : Balanced scale total before)
    (htotal : total < Decimal.capacity scale) (hmeasured : Measured scale batch) :
    Carried batch before after where
  there id hmentioned := by
    rcases Option.isSome_iff_exists.1 ((netDeltas_ok hcleared.net id).2.2 hmentioned) with
      ⟨delta, hget⟩
    rcases exists_locked hcleared hget with ⟨l, hl, rfl, _⟩
    rcases hcleared.reads hlocked l hl with ⟨account, haccount, _⟩
    rw [haccount]
    rfl
  same := Store.isSome_applyAll hcleared.applied
  units := unitsOf_cleared hcleared hlocked hbalanced hmeasured htotal

end Carried

namespace Work

/-- What an operation does in its transaction. -/
def booking (batch : List Transfer) (notice : Notice) : Work Unit := do
  (applyTransfers batch).concluded
  say notice

end Work

namespace Operation

/-- Operations one after another. -/
def performEach : List Operation → Service → List (Work.Progress Unit) × Service
  | [], s => ([], s)
  | operation :: rest, s =>
    let (progress, s) := operation.perform s
    let (others, s) := performEach rest s
    (progress :: others, s)

theorem transfer_eq {t : Transfer} (hcheck : t.check = .ok ()) :
    transfer t = .inTransaction (Work.booking [t] (.transferDone t)) := by
  rw [transfer, hcheck]
  rfl

theorem batch_eq {batch : List Transfer} (hchecked : Transfer.checkAll batch = .ok ())
    (hsome : batch ≠ []) :
    Operation.batch batch = .inTransaction (Work.booking batch (.batchDone batch.length)) := by
  rw [Operation.batch, hchecked]
  simp only [List.isEmpty_eq_false_iff.2 hsome, Bool.false_eq_true, ↓reduceIte]
  rfl

section Booking

variable {batch : List Transfer} {s s' : Service}

/-- What has become of the batch is what becomes of the operation. -/
theorem perform_of_concluded {outcome : Except Failure Unit} (notice : Notice)
    (hplan : s.plan = .empty)
    (hrun : (Work.applyTransfers batch).concluded.run s.start.1 s.start.2 = (.ended outcome, s'))
    (hended : s'.store.live.get? s.start.1 = none) :
    ∃ last, (inTransaction (Work.booking batch notice)).perform s = (.ended outcome, last) ∧
      last.store = s'.store ∧ last.plan = .empty := by
  have hsaid : ∃ last, (Work.booking batch notice).run s.start.1 s.start.2 =
      (.ended outcome, last) ∧ last.store = s'.store := run_said hrun
  rcases hsaid with ⟨last, hlast, hstore⟩
  have hplan' := Work.plan_walk
    (Work.walks_run s.start.1 (Work.booking batch notice) s.start.2) hplan
  rw [hlast] at hplan'
  exact ⟨last, perform_inTransaction hlast (hstore ▸ hended), hstore, hplan'⟩

/-- With nothing in its way, a batch that is valid fails for an objection, or it is accepted and
written. -/
theorem perform_booking (hclear : s.Unhindered) (hchecked : Transfer.checkAll batch = .ok ())
    (notice : Notice) :
    (∃ e s', (inTransaction (Work.booking batch notice)).perform s = (.ended (.error e), s') ∧
      Rejected s.store.accounts batch e) ∨
    ∃ deltas s', (inTransaction (Work.booking batch notice)).perform s = (.ended (.ok ()), s') ∧
      s'.Unhindered ∧ netDeltas batch = .ok deltas ∧ Accepted s.store.accounts batch ∧
      Store.applyAll s.store.accounts (deltas.entries.filter matters) = .ok s'.store.accounts := by
  have hwith : s.store.start.2.With s.start.1 .fresh s.start.2.store := Store.with_start s.store
  have hplan : s.start.2.plan = .empty := hclear.plan
  have hfree : ∀ id, Mentions batch id → s.store.start.2.locks.holders.get? id = none :=
    fun id _ => hclear.free id
  rcases rejected_or_accepted s.store.start.2 s.start.1 (t := .fresh) hchecked rfl rfl hfree with
    ⟨e, t', hbody, hrejected⟩ | ⟨deltas, t', hbody, hnet, hpending, haccepted⟩
  · rcases Work.run_concluded_error hbody hplan hwith with ⟨s₁, hrun, hafter⟩
    rcases perform_of_concluded notice hclear.plan hrun hafter.ended with ⟨s₂, hperform, _⟩
    exact Or.inl ⟨e, s₂, hperform, hrejected⟩
  · rcases written_of_accepted hnet haccepted with ⟨accounts, hall, _⟩
    have hpended : Store.applyAll s.store.start.2.accounts t'.pending.entries = .ok accounts := by
      rw [hpending]
      exact hall
    rcases Work.run_concluded_ok hbody hplan hwith hpended with
      ⟨due, _, hdue, _⟩ | ⟨s₁, _, hrun, hafter⟩
    · have hnone : s.store.start.2.conflictsDue = 0 := hclear.due
      omega
    · rcases perform_of_concluded notice hclear.plan hrun hafter.ended with
        ⟨s₂, hperform, hstore, hplan₂⟩
      refine Or.inr ⟨deltas, s₂, hperform, ⟨hplan₂, ?_, ?_⟩, hnet, haccepted, ?_⟩
      · rw [hstore]
        exact hafter.due
      · intro row
        rw [hstore, hafter.holders]
        exact hclear.free row
      · rw [hstore, hafter.accounts]
        exact hall

variable {scale : Nat} {total : Int} (hclear : s.Unhindered)
  (hbalanced : Balanced scale total s.store.accounts) (htotal : total < Decimal.capacity scale)
  (hchecked : Transfer.checkAll batch = .ok ()) (hmeasured : Measured scale batch)
include hclear hbalanced htotal hchecked hmeasured

/-- A batch that has succeeded has been carried out, and leaves nothing in the way of others. -/
theorem carried_booking {notice : Notice}
    (hok : (inTransaction (Work.booking batch notice)).perform s = (.ended (.ok ()), s')) :
    s'.Unhindered ∧ Balanced scale total s'.store.accounts ∧
      Carried batch s.store.accounts s'.store.accounts := by
  rcases perform_booking hclear hchecked notice with
    ⟨e, s₁, hperform, _⟩ | ⟨deltas, s₁, hperform, hclear', hnet, haccepted, hall⟩
  · rw [hok] at hperform
    simp at hperform
  · rw [hok, Prod.mk.injEq] at hperform
    rcases hperform with ⟨-, rfl⟩
    rcases cleared_of_accepted (c := .measured scale total) hchecked hnet haccepted hall with
      ⟨locked, hcleared⟩
    exact ⟨hclear', balanced_cleared hcleared trivial hbalanced hmeasured htotal,
      carried_of_cleared hcleared trivial hbalanced htotal hmeasured⟩

/-- A batch that is afforded is carried out. -/
theorem exists_carried (haffords : Affords s.store.accounts batch) (notice : Notice) :
    ∃ s', (inTransaction (Work.booking batch notice)).perform s = (.ended (.ok ()), s') ∧
      Carried batch s.store.accounts s'.store.accounts := by
  rcases perform_booking hclear hchecked notice with
    ⟨e, s', _, hrejected⟩ | ⟨_, s', hok, _⟩
  · have haccepted := accepted_of_affords hbalanced htotal hmeasured hchecked haffords
    exact absurd hrejected (not_rejected_of_accepted haccepted)
  · exact ⟨s', hok, (carried_booking hclear hbalanced htotal hchecked hmeasured hok).2.2⟩

end Booking

section Each

variable {transfers : List Transfer} {s : Service}

/-- The first operation succeeds, and the others do in what it leaves. -/
theorem performEach_cons {operation : Operation} {rest : List Operation}
    (h : ∀ progress ∈ (performEach (operation :: rest) s).1, progress = .ended (.ok ())) :
    ∃ s', operation.perform s = (.ended (.ok ()), s') ∧
      (performEach (operation :: rest) s).2 = (performEach rest s').2 ∧
      ∀ progress ∈ (performEach rest s').1, progress = .ended (.ok ()) := by
  have hfirst : (operation.perform s).1 = .ended (.ok ()) := h _ List.mem_cons_self
  exact ⟨(operation.perform s).2, by rw [← hfirst], rfl,
    fun progress hprogress => h progress (List.mem_cons_of_mem _ hprogress)⟩

/-- Transfers that succeed are valid. -/
theorem checkAll_of_each
    (h : ∀ progress ∈ (performEach (transfers.map transfer) s).1, progress = .ended (.ok ())) :
    Transfer.checkAll transfers = .ok () := by
  induction transfers generalizing s with
  | nil => rfl
  | cons t rest ih =>
      rw [List.map_cons] at h
      rcases performEach_cons h with ⟨s', hfirst, _, hrest⟩
      rw [Transfer.checkAll]
      cases hcheck : t.check with
      | error o =>
          rw [transfer, hcheck] at hfirst
          simp [perform] at hfirst
      | ok => exact ih hrest

variable {scale : Nat} {total : Int}

-- Induction on the list, from any balances: what a transfer leaves is balanced again and nothing
-- is in the way of the next one.
/-- Transfers that succeed one after another are carried out. -/
theorem carried_each (hclear : s.Unhindered) (hbalanced : Balanced scale total s.store.accounts)
    (htotal : total < Decimal.capacity scale) (hchecked : Transfer.checkAll transfers = .ok ())
    (hmeasured : Measured scale transfers)
    (h : ∀ progress ∈ (performEach (transfers.map transfer) s).1, progress = .ended (.ok ())) :
    Balanced scale total (performEach (transfers.map transfer) s).2.store.accounts ∧
      Carried transfers s.store.accounts
        (performEach (transfers.map transfer) s).2.store.accounts := by
  induction transfers generalizing s with
  | nil => exact ⟨hbalanced, carried_nil _⟩
  | cons t rest ih =>
      rw [List.map_cons] at h
      rcases performEach_cons h with ⟨s', hfirst, hlast, hrest⟩
      have hpositive : ∀ t' ∈ t :: rest, 0 < t'.amount.units := fun t' ht' =>
        (of_checkAll hchecked t' ht').1
      have hcheck : t.check = .ok () := Transfer.checkAll_ok_iff.1 hchecked t List.mem_cons_self
      rw [Transfer.checkAll, hcheck] at hchecked
      rw [transfer_eq hcheck] at hfirst
      have hone : Transfer.checkAll [t] = .ok () := by
        rw [Transfer.checkAll, hcheck]
        rfl
      rcases measured_cons hmeasured hpositive with ⟨hmeasured₁, hmeasured'⟩
      rcases carried_booking hclear hbalanced htotal hone hmeasured₁ hfirst with
        ⟨hclear', hbalanced', hcarried⟩
      rcases ih hclear' hbalanced' hchecked hmeasured' hrest with ⟨hbalanced'', hcarried'⟩
      rw [List.map_cons, hlast]
      exact ⟨hbalanced'', carried_trans hcarried hcarried'⟩

end Each

/-- A batch covers its transfers. If they succeed one by one, on balances that are not negative
and with sums that are exact, then the batch succeeds in their place, and it leaves every account
with the same balance. That the transfers are valid need not be known, since none would succeed
otherwise. -/
theorem batch_covers_each {scale : Nat} {transfers : List Transfer} {s : Service}
    (hplan : s.plan = .empty) (hrows : s.store.lockedRows = 0) (hdue : s.store.conflictsDue = 0)
    (hnonneg : ∀ id account, s.store.accounts.get? id = some account → 0 ≤ account.balance.units)
    (hmultiple : ∀ id account, s.store.accounts.get? id = some account →
      (Decimal.quantum scale : Int) ∣ account.balance.units)
    (htotal : exactTotal s.store.accounts < Decimal.capacity scale)
    (hmeasured : Measured scale transfers)
    (heach : ∀ progress ∈ (performEach (transfers.map transfer) s).1,
      progress = .ended (.ok ())) :
    ∃ s', (batch transfers).perform s = (.ended (.ok ()), s') ∧
      ∀ id, (s'.store.accounts.get? id).map (·.balance.units) =
        ((performEach (transfers.map transfer) s).2.store.accounts.get? id).map
          (·.balance.units) := by
  have hclear : s.Unhindered := ⟨hplan, hdue, Store.holder_of_unlocked hrows⟩
  have hbalanced : Balanced scale (exactTotal s.store.accounts) s.store.accounts :=
    ⟨hmultiple, hnonneg, rfl⟩
  have hchecked := checkAll_of_each heach
  rcases carried_each hclear hbalanced htotal hchecked hmeasured heach with
    ⟨hbalanced', hcarried⟩
  have hcovered : ∃ s', (batch transfers).perform s = (.ended (.ok ()), s') ∧
      Carried transfers s.store.accounts s'.store.accounts := by
    by_cases hempty : transfers = []
    · subst hempty
      exact ⟨s, rfl, carried_nil _⟩
    · rw [batch_eq hchecked hempty]
      exact exists_carried hclear hbalanced htotal hchecked hmeasured
        (affords_of_carried hcarried hbalanced') _
  rcases hcovered with ⟨s', hok, hcarried'⟩
  exact ⟨s', hok, carried_unique hcarried' hcarried⟩

/-- A whole unit, nothing and a half. -/
def wallets : Store :=
  Store.ofBalances [(1, .ofUInt64 1), (2, .zero), (3, (Decimal.ofParts? false 5 1).getD .zero)]

def cents (amount : Nat) : Decimal := (Decimal.ofParts? false amount 2).getD .zero

/-- Money goes round, and some of it goes the other way. -/
def roundTrip : List Transfer :=
  [⟨1, 2, cents 80⟩, ⟨2, 3, cents 30⟩, ⟨3, 1, cents 75⟩, ⟨2, 1, cents 50⟩, ⟨1, 3, cents 45⟩]

theorem batch_covers_each_roundTrip :
    wallets.lockedRows = 0 ∧ wallets.conflictsDue = 0 ∧
    (∀ id account, wallets.accounts.get? id = some account → 0 ≤ account.balance.units) ∧
    (∀ id account, wallets.accounts.get? id = some account →
      (Decimal.quantum 2 : Int) ∣ account.balance.units) ∧
    exactTotal wallets.accounts < Decimal.capacity 2 ∧ Measured 2 roundTrip ∧
    (∀ progress ∈ (performEach (roundTrip.map transfer) (.ofStore wallets)).1,
      progress = .ended (.ok ())) ∧
    ∃ s', (batch roundTrip).perform (.ofStore wallets) = (.ended (.ok ()), s') ∧
      ∀ id, (s'.store.accounts.get? id).map (·.balance.units) =
        ((performEach (roundTrip.map transfer) (.ofStore wallets)).2.store.accounts.get? id).map
          (·.balance.units) := by
  have hwallets : ∀ e ∈ wallets.accounts.entries, 0 ≤ e.2.balance.units ∧
      (Decimal.quantum 2 : Int) ∣ e.2.balance.units := by decide +kernel
  have hnonneg : ∀ id account, wallets.accounts.get? id = some account →
      0 ≤ account.balance.units := fun id account haccount =>
    (hwallets _ ((Table.mem_entries_iff wallets.accounts id account).2 haccount)).1
  have hmultiple : ∀ id account, wallets.accounts.get? id = some account →
      (Decimal.quantum 2 : Int) ∣ account.balance.units := fun id account haccount =>
    (hwallets _ ((Table.mem_entries_iff wallets.accounts id account).2 haccount)).2
  have htotal : exactTotal wallets.accounts < Decimal.capacity 2 := by decide +kernel
  have hmeasured : Measured 2 roundTrip := by
    refine ⟨?_, ?_⟩ <;> decide +kernel
  have hall : (performEach (roundTrip.map transfer) (.ofStore wallets)).1 =
      List.replicate 5 (.ended (.ok ())) := rfl
  have heach : ∀ progress ∈ (performEach (roundTrip.map transfer) (.ofStore wallets)).1,
      progress = .ended (.ok ()) := by
    rw [hall]
    exact fun progress hprogress => List.eq_of_mem_replicate hprogress
  exact ⟨rfl, rfl, hnonneg, hmultiple, htotal, hmeasured, heach,
    batch_covers_each rfl rfl rfl hnonneg hmultiple htotal hmeasured heach⟩

/-- The other way round it is not so. What the batch takes from the first account is there only
when it has got what comes later. -/
example :
    ((batch [⟨1, 3, cents 150⟩, ⟨3, 1, cents 60⟩]).perform (.ofStore wallets)).1 =
      .ended (.ok ()) ∧
    (performEach [transfer ⟨1, 3, cents 150⟩] (.ofStore wallets)).1 =
      [.ended (.error (.insufficientFunds 1 (.ofUInt64 1) (cents 150)))] := ⟨rfl, rfl⟩

end Operation

end RowLedger
