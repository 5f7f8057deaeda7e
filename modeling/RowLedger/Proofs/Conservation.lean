import RowLedger.Proofs.Flow
import RowLedger.Proofs.Kept
import RowLedger.Proofs.OrderedWork

/-!
# Conservation

No traffic of ordered calls makes money or loses it. There are three ways in
which it might: a sum is rounded, a balance that was checked is not the one
that is written, or a call that fails has written something. The last two are
excluded by the contract that ordered calls meet in all traffic: what is
committed is what was read under lock and not objected to, and a call commits
all or nothing.

That leaves the sums. A result that is negative is computed exactly, because it
is no further below zero than the gross amount of the batch, and is objected
to. So the exact results of a batch that is committed are all at least zero.
Their sum over all accounts is the sum of the balances before, which is below
the capacity; and so is then each of them, which means that it was computed
exactly, too.

## Main definitions

* `exactTotal`: The exact sum of all balances.
* `Balanced`: Balances whose sums are exact.
* `Turn.Fits`: A turn of ordered calls whose sums are exact.

## Theorems

* `exactTotal_eq`: The total as a sum over ids.
* `unitsOf_cleared`: A commit changes each account by what its batch moves.
* `balanced_cleared`: Balances stay balanced.
* `conservation`: Nothing is made or lost in any traffic of ordered calls.
-/

namespace RowLedger

open Finset

/-- The exact sum of all balances, in the finest units. -/
def exactTotal (accounts : Table AccountId Account) : Int :=
  (accounts.entries.map fun e => e.2.balance.units).sum

/-- Balances whose sums are exact: multiples of a quantum, not negative, with a known total. -/
structure Balanced (s : Nat) (total : Int) (accounts : Table AccountId Account) : Prop where
  multiple : ∀ id account, accounts.get? id = some account →
    (Decimal.quantum s : Int) ∣ account.balance.units
  nonneg : ∀ id account, accounts.get? id = some account → 0 ≤ account.balance.units
  total : exactTotal accounts = total

section Totals

variable {accounts : Table AccountId Account}

theorem unitsOf_of_some {id : AccountId} {account : Account}
    (h : accounts.get? id = some account) : unitsOf accounts id = account.balance.units := by
  rw [unitsOf, h]

theorem unitsOf_of_none {id : AccountId} (h : accounts.get? id = none) :
    unitsOf accounts id = 0 := by
  rw [unitsOf, h]

/-- The total is a sum over ids, among which are those of all accounts. -/
theorem exactTotal_eq {ids : Finset AccountId}
    (hids : ∀ id, (accounts.get? id).isSome = true → id ∈ ids) :
    exactTotal accounts = ∑ id ∈ ids, unitsOf accounts id := by
  have hsubset : accounts.keys.toFinset ⊆ ids := by
    intro id hid
    exact hids id ((accounts.mem_keys_iff id).1 (List.mem_toFinset.1 hid))
  -- Each id is counted once, because no key occurs twice.
  rw [← sum_subset hsubset, List.sum_toFinset _ accounts.nodup_keys, exactTotal, Table.keys,
    List.map_map]
  · refine congrArg List.sum (List.map_congr_left ?_)
    intro e he
    exact (unitsOf_of_some ((Table.mem_entries_iff accounts e.1 e.2).1 he)).symm
  · intro id _ hid
    rw [List.mem_toFinset, Table.mem_keys_iff, Option.not_isSome_iff_eq_none] at hid
    exact unitsOf_of_none hid

theorem Balanced.unitsOf_nonneg {s : Nat} {total : Int} (h : Balanced s total accounts)
    (id : AccountId) : 0 ≤ unitsOf accounts id := by
  cases haccount : accounts.get? id with
  | none => rw [unitsOf_of_none haccount]
  | some account =>
      rw [unitsOf_of_some haccount]
      exact h.nonneg id account haccount

theorem Balanced.dvd_unitsOf {s : Nat} {total : Int} (h : Balanced s total accounts)
    (id : AccountId) : (Decimal.quantum s : Int) ∣ unitsOf accounts id := by
  cases haccount : accounts.get? id with
  | none =>
      rw [unitsOf_of_none haccount]
      exact Int.dvd_zero _
  | some account =>
      rw [unitsOf_of_some haccount]
      exact h.multiple id account haccount

/-- A balance that was read is the balance. -/
theorem units_of_reads {l : Locked} (h : l.Reads accounts) :
    l.balance.units = unitsOf accounts l.id := by
  rcases h with ⟨account, haccount, hread⟩
  rw [unitsOf_of_some haccount]
  by_cases hzero : account.balance.isZero = true
  · rw [Decimal.add?_zero_left hzero, Option.some.injEq] at hread
    rw [← hread, (Decimal.isZero_iff _).1 hzero]
    exact (Decimal.isZero_iff _).1 rfl
  · rw [Bool.not_eq_true] at hzero
    rw [Decimal.add?_zero_right hzero rfl, Option.some.injEq] at hread
    rw [hread]

end Totals

/-- The accounts that exist and those that a batch mentions. -/
def concerned (accounts : Table AccountId Account) (batch : List Transfer) : Finset AccountId :=
  accounts.keys.toFinset ∪ ((batch.map (·.source)).toFinset ∪ (batch.map (·.target)).toFinset)

theorem mem_concerned_of_account {accounts : Table AccountId Account} {batch : List Transfer}
    {id : AccountId} (h : (accounts.get? id).isSome = true) : id ∈ concerned accounts batch := by
  exact mem_union_left _ (List.mem_toFinset.2 ((accounts.mem_keys_iff id).2 h))

theorem mem_concerned_of_transfer {accounts : Table AccountId Account} {batch : List Transfer}
    {t : Transfer} (h : t ∈ batch) :
    t.source ∈ concerned accounts batch ∧ t.target ∈ concerned accounts batch := by
  have hsource : t.source ∈ (batch.map (·.source)).toFinset :=
    List.mem_toFinset.2 (List.mem_map.2 ⟨t, h, rfl⟩)
  have htarget : t.target ∈ (batch.map (·.target)).toFinset :=
    List.mem_toFinset.2 (List.mem_map.2 ⟨t, h, rfl⟩)
  exact ⟨mem_union_right _ (mem_union_left _ hsource),
    mem_union_right _ (mem_union_right _ htarget)⟩

/-- The exact results of a batch sum up to the total before. -/
theorem sum_results {accounts : Table AccountId Account} {batch : List Transfer}
    {ids : Finset AccountId} (hids : concerned accounts batch ⊆ ids) :
    ∑ id ∈ ids, (unitsOf accounts id + (inflow batch id - outflow batch id)) =
      exactTotal accounts := by
  have hmentioned : ∀ t ∈ batch, t.source ∈ ids ∧ t.target ∈ ids := fun t ht =>
    ⟨hids (mem_concerned_of_transfer ht).1, hids (mem_concerned_of_transfer ht).2⟩
  rw [sum_add_distrib, sum_flow hmentioned, Int.add_zero,
    exactTotal_eq fun id hsome => hids (mem_concerned_of_account hsome)]

-- All results are at least zero and sum up to the total, so none of them is larger.
/-- If no exact result of a batch is negative, none is larger than the total. -/
theorem le_total_of_nonneg {s : Nat} {total : Int} {accounts : Table AccountId Account}
    {batch : List Transfer} (hbalanced : Balanced s total accounts)
    (hnonneg : ∀ id, 0 ≤ unitsOf accounts id + (inflow batch id - outflow batch id))
    (id : AccountId) : unitsOf accounts id + (inflow batch id - outflow batch id) ≤ total := by
  calc unitsOf accounts id + (inflow batch id - outflow batch id)
      ≤ ∑ id' ∈ insert id (concerned accounts batch),
          (unitsOf accounts id' + (inflow batch id' - outflow batch id')) :=
        single_le_sum (fun id' _ => hnonneg id') (mem_insert_self id _)
    _ = total := by rw [sum_results (subset_insert id _), hbalanced.total]

section Cleared

variable {s : Nat} {total : Int} {c : Contract} {batch : List Transfer}
  {before after : Table AccountId Account} {deltas : Deltas} {accounts : List Locked}

/-- The entry of an account is what the batch moves. -/
theorem units_of_entry (hcleared : Cleared c batch before after deltas accounts)
    (hmeasured : Measured s batch) (id : AccountId) :
    (deltas.current id).units = inflow batch id - outflow batch id := by
  rcases netDeltas_exact hmeasured hcleared.checked with ⟨deltas', hnet, hexact⟩
  rw [hcleared.net, Except.ok.injEq] at hnet
  exact hnet ▸ hexact id

/-- Each entry is that of an account which was locked. -/
theorem exists_locked (hcleared : Cleared c batch before after deltas accounts) {id : AccountId}
    {delta : Decimal} (hget : deltas.get? id = some delta) :
    ∃ l ∈ accounts, l.id = id ∧ l.delta = delta := by
  have hmem := (Table.mem_entries_iff deltas id delta).2 hget
  rw [← hcleared.entries, List.mem_map] at hmem
  rcases hmem with ⟨l, hl, heq⟩
  rw [Locked.entry, Prod.mk.injEq] at heq
  exact ⟨l, hl, heq⟩

variable (hcleared : Cleared c batch before after deltas accounts) (hlocked : c.locked)
  (hbalanced : Balanced s total before) (hmeasured : Measured s batch)
include hcleared hlocked hbalanced hmeasured

/-- No exact result is negative. -/
theorem result_nonneg (id : AccountId) :
    0 ≤ unitsOf before id + (inflow batch id - outflow batch id) := by
  have hunits := units_of_entry hcleared hmeasured id
  have hbefore := hbalanced.unitsOf_nonneg id
  cases hget : deltas.get? id with
  | none =>
      have hzero := Deltas.units_current_of_none hget
      omega
  | some delta =>
      rcases exists_locked hcleared hget with ⟨l, hl, rfl, rfl⟩
      rw [Deltas.current_of_some hget] at hunits
      have hread := units_of_reads (hcleared.reads hlocked l hl)
      refine Int.not_lt.1 fun hneg => ?_
      -- It is no further below zero than the gross amount.
      have hflow := flow_le (fun t ht => (of_checkAll hcleared.checked t ht).1) l.id
      have hfits := hmeasured.fits
      have hexact := Decimal.add?_exact (s := s) (a := l.balance) (b := l.delta)
        (by rw [hread]; exact hbalanced.dvd_unitsOf l.id)
        (by rw [hunits]; exact dvd_flow hmeasured l.id)
        (by rw [hread, hunits]; omega)
      rcases hexact with ⟨next, hnext, hsum⟩
      have hobjection := hcleared.allowed l hl
      rw [Locked.objection?, hnext] at hobjection
      simp only [(Decimal.isNegative_iff next).2 (by omega), ↓reduceIte, reduceCtorEq] at hobjection

/-- No exact result is larger than the total. -/
theorem result_le (id : AccountId) :
    unitsOf before id + (inflow batch id - outflow batch id) ≤ total :=
  le_total_of_nonneg hbalanced (result_nonneg hcleared hlocked hbalanced hmeasured) id

omit hlocked hbalanced hmeasured in
/-- An account whose entry does not matter is not written. -/
theorem unitsOf_unwritten {id : AccountId}
    (hnot : ∀ delta, deltas.get? id = some delta → matters (id, delta) = false) :
    unitsOf after id = unitsOf before id := by
  rw [unitsOf, unitsOf, Store.get?_applyAll_other hcleared.applied]
  rintro ⟨id', delta⟩ hmem rfl
  rw [List.mem_filter, Table.mem_entries_iff] at hmem
  rw [hnot delta hmem.1] at hmem
  simp at hmem

variable (htotal : total < Decimal.capacity s)
include htotal

/-- An account whose entry matters is written, and the sum is exact. -/
theorem unitsOf_written {id : AccountId} {delta : Decimal} (hget : deltas.get? id = some delta)
    (hmatters : matters (id, delta) = true) :
    unitsOf after id = unitsOf before id + (inflow batch id - outflow batch id) := by
  have hunits := units_of_entry hcleared hmeasured id
  rw [Deltas.current_of_some hget] at hunits
  have hmem : (id, delta) ∈ deltas.entries.filter matters :=
    List.mem_filter.2 ⟨(Table.mem_entries_iff deltas id delta).2 hget, hmatters⟩
  rcases exists_locked hcleared hget with ⟨l, hl, rfl, _⟩
  rcases hcleared.reads hlocked l hl with ⟨old, hold, _⟩
  rcases Store.get?_applyAll (deltas.ascending.filter _) hcleared.applied hmem hold with
    ⟨new, hnew, hafter⟩
  have hold' := unitsOf_of_some hold
  have hnonneg := result_nonneg hcleared hlocked hbalanced hmeasured l.id
  have hle := result_le hcleared hlocked hbalanced hmeasured l.id
  have hexact := Decimal.add?_exact (s := s) (a := old.balance) (b := delta)
    (hbalanced.multiple l.id old hold)
    (by rw [hunits]; exact dvd_flow hmeasured l.id)
    (by rw [hunits, ← hold']; omega)
  rcases hexact with ⟨next, hnext, hsum⟩
  rw [unitsOf_of_some hafter, Store.balance_applied hnew hnext, hsum, hold', hunits]

/-- A commit changes each account by what its batch moves. -/
theorem unitsOf_cleared (id : AccountId) :
    unitsOf after id = unitsOf before id + (inflow batch id - outflow batch id) := by
  have hunits := units_of_entry hcleared hmeasured id
  cases hget : deltas.get? id with
  | none =>
      have hsame : unitsOf after id = unitsOf before id :=
        unitsOf_unwritten hcleared (by simp [hget])
      rw [hsame, ← hunits, Deltas.units_current_of_none hget, Int.add_zero]
  | some delta =>
      cases hmatters : matters (id, delta) with
      | true => exact unitsOf_written hcleared hlocked hbalanced hmeasured htotal hget hmatters
      | false =>
          have hsame : unitsOf after id = unitsOf before id :=
            unitsOf_unwritten hcleared (by simp [hget, hmatters])
          rw [matters, Bool.not_eq_false'] at hmatters
          have hzero := (Decimal.isZero_iff delta).1 hmatters
          rw [hsame, ← hunits, Deltas.current_of_some hget, hzero, Int.add_zero]

/-- Balances stay balanced. -/
theorem balanced_cleared : Balanced s total after where
  multiple id account haccount := by
    rw [← unitsOf_of_some haccount,
      unitsOf_cleared hcleared hlocked hbalanced hmeasured htotal]
    exact Int.dvd_add (hbalanced.dvd_unitsOf id) (dvd_flow hmeasured id)
  nonneg id account haccount := by
    rw [← unitsOf_of_some haccount,
      unitsOf_cleared hcleared hlocked hbalanced hmeasured htotal]
    exact result_nonneg hcleared hlocked hbalanced hmeasured id
  total := by
    have hthere : ∀ id, (after.get? id).isSome = true → id ∈ concerned before batch := by
      intro id hsome
      rw [Store.isSome_applyAll hcleared.applied] at hsome
      exact mem_concerned_of_account hsome
    rw [exactTotal_eq hthere, sum_congr rfl fun id _ =>
      unitsOf_cleared hcleared hlocked hbalanced hmeasured htotal id,
      sum_results (Finset.Subset.refl _), hbalanced.total]

end Cleared

/-- The contract of calls whose sums are exact: they may wait and fail as they like, and balances
stay balanced. -/
def Contract.measured (s : Nat) (total : Int) : Contract where
  accounts := Balanced s total
  locked := True
  asks := fun _ _ => True
  victims := True
  conflicts := True

/-- A turn of ordered calls whose sums are exact. The others may do what they like, except that
they commit nothing and put no account in. -/
def Turn.Fits (s : Nat) : Turn OrderedCall → Prop
  | .event e => (∀ id balance, e ≠ .insert id balance) ∧ ∀ tx, e ≠ .call tx .commit
  | .launch call => Measured s call.transfers
  | .advance _ | .cut _ => True

namespace Traffic

variable {s : Nat} {total : Int} {t : Traffic OrderedCall} {turn : Turn OrderedCall}
  {done : TxId → AccountId → Int}

/-- How ordered calls end whose sums are exact. -/
def settlements (s : Nat) (total : Int) (call : OrderedCall) (outcome : Except Failure Unit)
    (stage : Stage) : Prop :=
  Booked (.measured s total) call.transfers outcome stage ∧ Measured s call.transfers

theorem permits_measured (hbalanced : Balanced s total t.store.accounts)
    (htotal : total < Decimal.capacity s) (hfits : turn.Fits s) :
    Permits OrderedCall.operation (.measured s total) (settlements s total) t turn where
  launched call body hlaunch hbody := by
    subst hlaunch
    have hmeets := meets_ordered (c := .measured s total) (fun _ _ _ => trivial)
      (fun before after deltas locked hbefore hcleared =>
        balanced_cleared hcleared trivial hbefore hfits htotal) hbody t.store.accounts
    exact Work.meets_mono hmeets fun outcome stage hbooked => ⟨hbooked, hfits⟩
  outside e hevent := by
    subst hevent
    refine ⟨?_, fun _ => hfits.1⟩
    rcases Store.accounts_step (s := t.store) hfits.1 with hsame | ⟨tx, _, hcommit, _⟩
    · rw [hsame]
      exact hbalanced
    · exact absurd hcommit (hfits.2 tx)
  victims _ _ _ _ _ _ _ _ _ := trivial
  conflicts _ := trivial

theorem permitsAll_measured (htotal : total < Decimal.capacity s) (turns : List (Turn OrderedCall))
    (h : Kept (.measured s total) (settlements s total) done t)
    (hfits : ∀ turn ∈ turns, turn.Fits s) :
    t.PermitsAll OrderedCall.operation (.measured s total) (settlements s total) turns := by
  induction turns generalizing done t with
  | nil => trivial
  | cons turn rest ih =>
      have hpermits := permits_measured h.accounts htotal (hfits turn List.mem_cons_self)
      refine ⟨hpermits, ih (kept_step h hpermits) ?_⟩
      exact fun turn' hturn' => hfits turn' (List.mem_cons_of_mem _ hturn')

/-- The end of a call tells what it has done: what its batch moves, or nothing. -/
theorem effect_settled (htotal : total < Decimal.capacity s) {call : OrderedCall}
    {outcome : Except Failure Unit} {stage : Stage}
    (hsettled : settlements s total call outcome stage) (id : AccountId) :
    (outcome = .ok () → stage.effect id =
      inflow call.transfers id - outflow call.transfers id) ∧
    (∀ e, outcome = .error e → stage.effect id = 0) := by
  rcases hsettled with ⟨hbooked, hmeasured⟩
  cases hbooked with
  | failed => exact ⟨by simp, fun _ _ => rfl⟩
  | @done before after deltas locked hbefore hcleared =>
      refine ⟨fun _ => ?_, by simp⟩
      have hafter := unitsOf_cleared hcleared trivial hbefore hmeasured htotal id
      change unitsOf after id - unitsOf before id = _
      omega

/-- What an ordered call has done when it returns. A call that had no transaction has done
nothing. -/
theorem effect_returned (htotal : total < Decimal.capacity s) {turns : List (Turn OrderedCall)}
    (h : Kept (.measured s total) (settlements s total) (fun _ _ => 0) t)
    (hfits : ∀ turn ∈ turns, turn.Fits s) {call : OrderedCall} {tx : Option TxId}
    {outcome : Except Failure Unit}
    (hreport : .returned call tx outcome ∈ t.reports OrderedCall.operation turns)
    (id : AccountId) :
    (outcome = .ok () → t.effectOf OrderedCall.operation turns tx id =
      inflow call.transfers id - outflow call.transfers id) ∧
    (∀ e, outcome = .error e → t.effectOf OrderedCall.operation turns tx id = 0) := by
  cases tx with
  | none =>
      refine ⟨?_, fun _ _ => rfl⟩
      rintro rfl
      rcases settled_ordered (settled_of_report h.sound hreport) with ⟨_, hempty⟩ | ⟨o, herror⟩
      · rw [hempty]
        rfl
      · simp at herror
  | some tx =>
      have hpermits := permitsAll_measured htotal turns h hfits
      rcases kept_returned turns h hpermits hreport with ⟨stage, hsettled, heffect⟩
      have hid := heffect id
      rw [Int.zero_add] at hid
      rw [effectOf, hid]
      exact effect_settled htotal hsettled id

/-- Nothing is made or lost in any traffic of ordered calls, no balance is ever negative, and a
call that has returned has changed each account by what its batch moves, or by nothing if it has
failed. -/
theorem conservation {s : Nat} {accounts : Table AccountId Account}
    {turns : List (Turn OrderedCall)}
    (hmultiple : ∀ id account, accounts.get? id = some account →
      (Decimal.quantum s : Int) ∣ account.balance.units)
    (hnonneg : ∀ id account, accounts.get? id = some account → 0 ≤ account.balance.units)
    (htotal : exactTotal accounts < Decimal.capacity s) (hfits : ∀ turn ∈ turns, turn.Fits s) :
    exactTotal ((ofStore (.ofAccounts accounts)).after OrderedCall.operation turns).store.accounts =
      exactTotal accounts ∧
    (∀ id account,
      ((ofStore (.ofAccounts accounts)).after OrderedCall.operation turns).store.accounts.get? id =
        some account → 0 ≤ account.balance.units) ∧
    ∀ call tx outcome, .returned call tx outcome ∈
        (ofStore (.ofAccounts accounts)).reports OrderedCall.operation turns →
      ∀ id,
        (outcome = .ok () →
          (ofStore (.ofAccounts accounts)).effectOf OrderedCall.operation turns tx id =
            inflow call.transfers id - outflow call.transfers id) ∧
        (∀ e, outcome = .error e →
          (ofStore (.ofAccounts accounts)).effectOf OrderedCall.operation turns tx id = 0) := by
  have hkept : Kept (.measured s (exactTotal accounts)) (settlements s (exactTotal accounts))
      (fun _ _ => 0) (ofStore (.ofAccounts accounts)) :=
    kept_ofStore (Store.consistent_ofAccounts accounts) ⟨hmultiple, hnonneg, rfl⟩
  have hafter := kept_after turns hkept (permitsAll_measured htotal turns hkept hfits)
  refine ⟨hafter.accounts.total, hafter.accounts.nonneg, ?_⟩
  exact fun call tx outcome hreport => effect_returned htotal hkept hfits hreport

/-- Two purses. -/
def purses : Table AccountId Account :=
  (Table.empty.insert 1 (.fresh 1 (.ofUInt64 10))).insert 2 (.fresh 2 .zero)

/-- Somebody reads a purse and holds it. A transfer waits for it and is cut off. Then one transfer
goes through, one meets a conflict, and one fails for want of money. -/
def bustle : List (Turn OrderedCall) :=
  [.event .start, .event (.call 1 (.request (.query 1))),
    .launch (.transfer ⟨1, 2, .ofUInt64 4⟩), .advance 2, .cut 2, .event (.drop 1),
    .launch (.transfer ⟨1, 2, .ofUInt64 3⟩)] ++ List.replicate 7 (.advance 3) ++
  [.event (.inject 1), .launch (.batchAttempt [⟨2, 1, .ofUInt64 1⟩])] ++
    List.replicate 6 (.advance 4) ++
  [.launch (.transferAttempt ⟨2, 1, .ofUInt64 9⟩)] ++ List.replicate 6 (.advance 5)

theorem conservation_bustle :
    (∀ id account, purses.get? id = some account →
      (Decimal.quantum 0 : Int) ∣ account.balance.units) ∧
    (∀ id account, purses.get? id = some account → 0 ≤ account.balance.units) ∧
    exactTotal purses < Decimal.capacity 0 ∧ (∀ turn ∈ bustle, turn.Fits 0) ∧
    exactTotal ((ofStore (.ofAccounts purses)).after OrderedCall.operation bustle).store.accounts =
      exactTotal purses ∧
    .returned (.transfer ⟨1, 2, .ofUInt64 3⟩) (some 3) (.ok ()) ∈
      (ofStore (.ofAccounts purses)).reports OrderedCall.operation bustle ∧
    (ofStore (.ofAccounts purses)).effectOf OrderedCall.operation bustle (some 3) 2 =
      inflow [⟨1, 2, .ofUInt64 3⟩] 2 - outflow [⟨1, 2, .ofUInt64 3⟩] 2 := by
  have hpurses : ∀ e ∈ purses.entries, (Decimal.quantum 0 : Int) ∣ e.2.balance.units ∧
      0 ≤ e.2.balance.units := by decide +kernel
  have hmultiple : ∀ id account, purses.get? id = some account →
      (Decimal.quantum 0 : Int) ∣ account.balance.units := fun id account haccount =>
    (hpurses _ ((Table.mem_entries_iff purses id account).2 haccount)).1
  have hnonneg : ∀ id account, purses.get? id = some account → 0 ≤ account.balance.units :=
    fun id account haccount => (hpurses _ ((Table.mem_entries_iff purses id account).2 haccount)).2
  have htotal : exactTotal purses < Decimal.capacity 0 := by decide +kernel
  have hmeasured : Measured 0 [⟨1, 2, .ofUInt64 4⟩] ∧ Measured 0 [⟨1, 2, .ofUInt64 3⟩] ∧
      Measured 0 [⟨2, 1, .ofUInt64 1⟩] ∧ Measured 0 [⟨2, 1, .ofUInt64 9⟩] := by
    refine ⟨⟨?_, ?_⟩, ⟨?_, ?_⟩, ⟨?_, ?_⟩, ⟨?_, ?_⟩⟩ <;> decide +kernel
  have hfits : ∀ turn ∈ bustle, turn.Fits 0 := by
    simp [bustle, Turn.Fits, OrderedCall.transfers, hmeasured]
  have hreport : .returned (.transfer ⟨1, 2, .ofUInt64 3⟩) (some 3) (.ok ()) ∈
      (ofStore (.ofAccounts purses)).reports OrderedCall.operation bustle :=
    List.mem_cons_of_mem _ List.mem_cons_self
  rcases conservation hmultiple hnonneg htotal hfits with ⟨hsame, _, hreturned⟩
  exact ⟨hmultiple, hnonneg, htotal, hfits, hsame, hreport, (hreturned _ _ _ hreport 2).1 rfl⟩

end Traffic

end RowLedger
