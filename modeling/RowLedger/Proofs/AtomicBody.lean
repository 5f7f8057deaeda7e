import Mathlib.Data.List.Sort
import RowLedger.Proofs.Amidst
import RowLedger.Proofs.BatchOutcome
import RowLedger.Proofs.Victims

/-!
# Bodies that fail write nothing

The body of a batch inside a transaction that has done other things before and
may do more afterwards. It locks its accounts in ascending order, those that the
transaction does not hold yet; it checks the results; and it writes. Everything
that can fail comes before the first write, and the writes cannot fail: each row
is held by then, so nobody is waited for, and as long as the transaction had no
delta for an account of the batch the new one is not added to anything. So a
body that fails has buffered nothing, whatever it failed for and whatever others
did meanwhile.

## Main definitions

* `accountsOf`: The accounts of a batch in ascending order.
* `OpenTx.missing`: The rows of a list that a transaction does not hold yet.
* `Work.Puts`: Deltas are put down where there were none.

## Theorems

* `keys_netDeltas`: Net deltas are those of the accounts of the batch.
* `leads_query`, `leads_lockAll`: What locking leads to.
* `leads_checkResults`: What checking leads to.
* `leads_update`, `leads_writeAll`: To write does not fail.
* `body_all_or_nothing`: What the body leads to.
-/

namespace RowLedger

/-- The accounts that a batch mentions, in ascending order and each once. -/
def accountsOf (batch : List Transfer) : List AccountId :=
  (Table.ofList ((postings batch).map fun p => (p.id, ()))).keys

theorem mem_accountsOf {batch : List Transfer} {id : AccountId} :
    id ∈ accountsOf batch ↔ Mentions batch id := by
  rw [accountsOf, Table.mem_keys_ofList, List.map_map, mentions_iff, List.mem_map]
  rfl

theorem pairwise_accountsOf (batch : List Transfer) : (accountsOf batch).Pairwise (· < ·) :=
  Table.pairwise_keys _

/-- Net deltas are those of the accounts of the batch. -/
theorem keys_netDeltas {batch : List Transfer} {deltas : Deltas}
    (hnet : netDeltas batch = .ok deltas) : deltas.keys = accountsOf batch := by
  refine (Table.pairwise_keys deltas).eq_of_mem_iff (pairwise_accountsOf batch) ?_
  intro id
  rw [Table.mem_keys_iff, mem_accountsOf]
  exact (netDeltas_ok hnet id).2

namespace OpenTx

/-- The rows of a list that a transaction does not hold yet. -/
def missing (t : OpenTx) (ids : List AccountId) : List AccountId :=
  ids.filter fun id => decide (id ∉ t.held)

variable {t t' : OpenTx} {id : AccountId} {rest : List AccountId}

theorem missing_cons (t : OpenTx) (id : AccountId) (rest : List AccountId) :
    t.missing (id :: rest) = t.missing [id] ++ t.missing rest :=
  List.filter_append [id] rest

/-- When the missing rows have been locked, all of them are held. -/
theorem mem_held_missing {ids : List AccountId} :
    id ∈ t.held ++ t.missing ids ↔ id ∈ t.held ∨ id ∈ ids := by
  by_cases hheld : id ∈ t.held
  · simp [missing, hheld]
  · simp [missing, hheld]

/-- A row that was locked is not missing any more, and nothing changes for the others. -/
theorem missing_of_held (hheld : t'.held = t.held ++ t.missing [id]) (hnew : id ∉ rest) :
    t'.missing rest = t.missing rest := by
  refine List.filter_congr ?_
  intro other hother
  have hne : other ≠ id := fun heq => hnew (heq ▸ hother)
  have hnone : other ∉ t.missing [id] := by simp [missing, hne]
  simp only [hheld, List.mem_append, hnone, or_false]

/-- To serve a query changes nothing. -/
theorem serve_query (t : OpenTx) (account : Option Account) (row : AccountId) :
    (t.serve account (.query row)).2 = t := by
  cases account with
  | none => rfl
  | some account =>
      rw [serve]
      cases account.balance.add? (t.delta row) with
      | none => rfl
      | some amount => rfl

/-- A query of a row without a delta locks the row, or it is refused and leaves the record as it
is. -/
theorem alone_query {row : AccountId} (hnone : t.pending.get? row = none)
    (accounts : Table AccountId Account) :
    (∃ reason, t.alone accounts (.query row) = (.refused reason, t)) ∨
      ∃ amount t', t.alone accounts (.query row) = (.served amount, t') ∧
        t'.pending = t.pending ∧ t'.held = t.held ++ t.missing [row] := by
  by_cases hheld : row ∈ t.held
  · have hmissing : t.missing [row] = [] := by simp [missing, hheld]
    rw [alone, if_pos (show (Request.query row).row ∈ t.held from hheld)]
    have hsame := serve_query t (accounts.get? row) row
    cases hreply : (t.serve (accounts.get? row) (.query row)).1 with
    | served amount =>
        exact Or.inr ⟨amount, t, Prod.ext hreply hsame, rfl, by rw [hmissing, List.append_nil]⟩
    | refused reason => exact Or.inl ⟨reason, Prod.ext hreply hsame⟩
    | waiting => exact absurd hreply (serve_ne_waiting _ _ _)
  · have hmissing : t.missing [row] = [row] := by simp [missing, hheld]
    rw [alone, if_neg (show (Request.query row).row ∉ t.held from hheld)]
    cases haccount : accounts.get? (Request.query row).row with
    | none => exact Or.inl ⟨_, rfl⟩
    | some account =>
        rcases serve_new (t := t.lock row) (r := .query row) hnone account with ⟨amount, hserved⟩
        refine Or.inr ⟨amount, t.lock row, Prod.ext hserved (serve_query _ _ _), rfl, ?_⟩
        rw [hmissing, lock_held]

end OpenTx

namespace Work

variable {tx : TxId} {t : OpenTx} {row : AccountId}

theorem leads_query (hnone : t.pending.get? row = none) :
    (query row).Leads tx t
      (fun _ t' => t'.pending = t.pending ∧ t'.held = t.held ++ t.missing [row])
      fun t' => t' = t := by
  refine leads_ask ?_ ?_ fun _ => rfl
  · intro accounts amount hserved
    rcases OpenTx.alone_query hnone accounts with ⟨reason, halone⟩ | ⟨_, t', halone, hlocked⟩
    · simp [halone] at hserved
    · rw [halone]
      exact hlocked
  · intro accounts reason hrefused
    rcases OpenTx.alone_query hnone accounts with ⟨_, halone⟩ | ⟨_, t', halone, hlocked⟩
    · rw [halone]
    · simp [halone] at hrefused

/-- Accounts are locked in the order of the list, up to the first failure. -/
theorem leads_lockAll {entries : List (AccountId × Decimal)}
    (hasc : entries.Pairwise fun a b => a.1 < b.1)
    (hnone : ∀ e ∈ entries, t.pending.get? e.1 = none) :
    (lockAll entries).Leads tx t
      (fun locked t' => t'.pending = t.pending ∧ locked.map Locked.entry = entries ∧
        t'.held = t.held ++ t.missing (entries.map (·.1)))
      fun t' => t'.pending = t.pending ∧ ∃ new, t'.held = t.held ++ new ∧
        new <+: t.missing (entries.map (·.1)) := by
  induction entries generalizing t with
  | nil => exact leads_pure ⟨rfl, rfl, (List.append_nil _).symm⟩
  | cons e rest ih =>
      rcases List.pairwise_cons.1 hasc with ⟨hfirst, hasc'⟩
      have hnew : e.1 ∉ rest.map (·.1) := by
        intro hmem
        rcases List.mem_map.1 hmem with ⟨e', he', heq⟩
        exact absurd (heq ▸ hfirst e' he') (Int.lt_irrefl _)
      rw [lockAll, List.map_cons, OpenTx.missing_cons]
      refine leads_bind (leads_query (hnone e List.mem_cons_self)) ?_ ?_
      · rintro balance t₁ ⟨hpending, hheld⟩
        have hrest := ih (t := t₁) hasc' fun e' he' => by
          rw [hpending]
          exact hnone e' (List.mem_cons_of_mem _ he')
        rw [hpending, hheld, OpenTx.missing_of_held hheld hnew] at hrest
        refine leads_bind hrest ?_ ?_
        · rintro others t' ⟨hpending', hentries, hheld'⟩
          refine leads_pure ⟨hpending', ?_, ?_⟩
          · rw [List.map_cons, hentries]
            rfl
          · rw [hheld', List.append_assoc]
        · rintro t' ⟨hpending', new, hheld', hprefix⟩
          refine ⟨hpending', t.missing [e.1] ++ new, ?_, ?_⟩
          · rw [hheld', List.append_assoc]
          · exact (List.prefix_append_right_inj _).2 hprefix
      · rintro t' rfl
        exact ⟨rfl, [], (List.append_nil _).symm, List.nil_prefix⟩

/-- The results are checked without a call. -/
theorem leads_checkResults (locked : List Locked) :
    (checkResults locked).Leads tx t (fun _ t' => t' = t) fun t' => t' = t := by
  rw [checkResults]
  cases locked.findSome? Locked.objection? with
  | none => exact leads_pure rfl
  | some objection =>
      have hsaid : (say objection.1).Leads tx t (fun _ t' => t' = t) fun t' => t' = t :=
        leads_say objection.1 rfl
      exact leads_bind hsaid (fun _ _ h => leads_fail h) fun _ h => h

/-- The first update of a row that is held puts its delta down. -/
theorem leads_update {delta : Decimal} (hheld : row ∈ t.held) (hnone : t.pending.get? row = none) :
    (update row delta).Leads tx t
      (fun _ t' => t' = { t with pending := t.pending.insert row delta }) fun _ => False := by
  have halone : ∀ accounts, t.alone accounts (.update row delta) =
      (.served delta, { t with pending := t.pending.insert row delta }) :=
    fun accounts => OpenTx.alone_update_held hheld hnone
  have hasked : (ask (.update row delta)).Leads tx t
      (fun _ t' => t' = { t with pending := t.pending.insert row delta }) fun _ => False := by
    refine leads_ask ?_ ?_ ?_
    · intro accounts amount _
      rw [halone]
    · intro accounts reason hrefused
      simp [halone] at hrefused
    · exact fun hnew => hnew hheld
  exact leads_bind hasked (fun _ _ h => leads_pure h) fun _ h => h

/-- The deltas of some accounts are put down where there were none, those that are not zero. -/
structure Puts (locked : List Locked) (t t' : OpenTx) : Prop where
  held : t'.held = t.held
  put : ∀ l ∈ locked, t'.pending.get? l.id = if l.delta.isZero then none else some l.delta
  others : ∀ id, id ∉ locked.map (·.id) → t'.pending.get? id = t.pending.get? id

/-- One delta put down, and then those of other accounts. -/
theorem puts_cons {l : Locked} {rest : List Locked} {t₁ t' : OpenTx} (hfirst : Puts [l] t t₁)
    (hrest : Puts rest t₁ t') (hnew : l.id ∉ rest.map (·.id)) : Puts (l :: rest) t t' where
  held := hrest.held.trans hfirst.held
  put l' hl' := by
    rcases List.mem_cons.1 hl' with rfl | hl'
    · rw [hrest.others l'.id hnew]
      exact hfirst.put l' List.mem_cons_self
    · exact hrest.put l' hl'
  others id hid := by
    rw [List.map_cons, List.mem_cons, not_or] at hid
    rw [hrest.others id hid.2]
    exact hfirst.others id (by simpa using hid.1)

/-- What is written is held already, and nothing is added to what is pending. -/
theorem leads_writeAll {locked : List Locked}
    (hasc : (locked.map Locked.entry).Pairwise fun a b => a.1 < b.1)
    (hheld : ∀ l ∈ locked, l.id ∈ t.held) (hnone : ∀ l ∈ locked, t.pending.get? l.id = none) :
    (writeAll locked).Leads tx t (fun _ t' => Puts locked t t') fun _ => False := by
  induction locked generalizing t with
  | nil => exact leads_pure ⟨rfl, by simp, fun _ _ => rfl⟩
  | cons l rest ih =>
      rcases List.pairwise_cons.1 hasc with ⟨hlow, hasc'⟩
      have hnew : l.id ∉ rest.map (·.id) := by
        intro hmem
        rcases List.mem_map.1 hmem with ⟨l', hl', heq⟩
        have hlt : l.id < l'.id := hlow l'.entry (List.mem_map_of_mem hl')
        exact absurd (heq ▸ hlt) (Int.lt_irrefl _)
      -- A first delta that is put down leaves those of the others to be put down.
      have hgoesOn : ∀ t₁, Puts [l] t t₁ →
          (writeAll rest).Leads tx t₁ (fun _ t' => Puts (l :: rest) t t') fun _ => False := by
        intro t₁ hfirst
        refine leads_mono (ih hasc' ?_ ?_) (fun _ t' hrest => puts_cons hfirst hrest hnew)
          fun _ h => h
        · intro l' hl'
          rw [hfirst.held]
          exact hheld l' (List.mem_cons_of_mem _ hl')
        · intro l' hl'
          have hne : l'.id ∉ [l].map (·.id) := by
            intro heq
            exact hnew (List.mem_map.2 ⟨l', hl', by simpa using heq⟩)
          rw [hfirst.others l'.id hne]
          exact hnone l' (List.mem_cons_of_mem _ hl')
      have hnone₀ := hnone l List.mem_cons_self
      rw [writeAll]
      cases hzero : l.delta.isZero with
      | true =>
          rw [if_pos rfl]
          refine hgoesOn t ⟨rfl, ?_, fun _ _ => rfl⟩
          simp [hzero, hnone₀]
      | false =>
          rw [if_neg Bool.false_ne_true]
          refine leads_bind (leads_update (hheld l List.mem_cons_self) hnone₀) ?_ fun _ h => h
          rintro _ t₁ rfl
          refine hgoesOn _ ⟨rfl, ?_, ?_⟩
          · simp [hzero]
          · intro id hid
            rw [Table.get?_insert, if_neg]
            rintro rfl
            simp at hid

/-- A body has failed: it has locked its accounts up to one of them and buffered nothing. -/
structure FailedBody (batch : List Transfer) (t t' : OpenTx) : Prop where
  pending : t'.pending = t.pending
  held : ∃ new, t'.held = t.held ++ new ∧ new <+: t.missing (accountsOf batch)

/-- A body is done: it has locked all its accounts and buffered the net deltas that are not
zero. -/
structure DoneBody (batch : List Transfer) (t t' : OpenTx) : Prop where
  held : t'.held = t.held ++ t.missing (accountsOf batch)
  pending : ∀ id, ∃ delta, runningSum (postings batch) id = some delta ∧
    t'.pending.get? id = if delta.isZero then t.pending.get? id else some delta

/-- What fails before anything is locked leaves the record as it is. -/
theorem failedBody_self (batch : List Transfer) (t : OpenTx) : FailedBody batch t t where
  pending := rfl
  held := ⟨[], (List.append_nil _).symm, List.nil_prefix⟩

/-- What is put down for the accounts of a batch is what its net deltas are. -/
theorem pending_of_puts {batch : List Transfer} {deltas : Deltas} {locked : List Locked}
    {t' : OpenTx} (hnet : netDeltas batch = .ok deltas)
    (hentries : locked.map Locked.entry = deltas.entries)
    (hnone : ∀ id, Mentions batch id → t.pending.get? id = none) (hputs : Puts locked t t')
    (id : AccountId) : ∃ delta, runningSum (postings batch) id = some delta ∧
      t'.pending.get? id = if delta.isZero then t.pending.get? id else some delta := by
  rcases netDeltas_ok hnet id with ⟨hsum, hkeys⟩
  by_cases hmentioned : Mentions batch id
  · rcases exists_entry hnet hmentioned with ⟨delta, hmem⟩
    refine ⟨delta, (mem_netDeltas hnet hmem).2, ?_⟩
    rw [← hentries, List.mem_map] at hmem
    rcases hmem with ⟨l, hl, heq⟩
    cases heq
    rw [hputs.put l hl, hnone l.id hmentioned]
  · refine ⟨_, hsum, ?_⟩
    have hget : deltas.get? id = none := by
      rw [← Option.not_isSome_iff_eq_none]
      exact fun hsome => hmentioned (hkeys.1 hsome)
    have hzero : (deltas.current id).isZero = true := by
      rw [Deltas.current, hget]
      rfl
    rw [if_pos hzero]
    refine hputs.others id ?_
    intro hid
    rcases List.mem_map.1 hid with ⟨l, hl, rfl⟩
    have hmem : l.entry ∈ deltas.entries := hentries ▸ List.mem_map_of_mem hl
    exact hmentioned (mem_netDeltas hnet hmem).1

/-- All that can fail comes before the first write. -/
theorem leads_applyDeltas {batch : List Transfer} {deltas : Deltas}
    (hnet : netDeltas batch = .ok deltas)
    (hnone : ∀ id, Mentions batch id → t.pending.get? id = none) :
    (applyDeltas deltas).Leads tx t (fun _ t' => DoneBody batch t t') (FailedBody batch t) := by
  have hids : deltas.entries.map (·.1) = accountsOf batch := keys_netDeltas hnet
  have hlock : (lockAll deltas.entries).Leads tx t _ _ := leads_lockAll deltas.ascending fun e he =>
    hnone e.1 (mem_netDeltas hnet he).1
  rw [hids] at hlock
  refine leads_bind hlock ?_ fun t' h => ⟨h.1, h.2⟩
  rintro locked t₁ ⟨hpending, hentries, hheld⟩
  refine leads_bind (leads_checkResults locked) ?_ ?_
  · rintro _ t₁ rfl
    have hmentioned : ∀ l ∈ locked, Mentions batch l.id := fun l hl =>
      (mem_netDeltas hnet (hentries ▸ List.mem_map_of_mem hl)).1
    have hnone₁ : ∀ id, Mentions batch id → t₁.pending.get? id = none := by
      rw [hpending]
      exact hnone
    refine leads_mono (leads_writeAll (hentries ▸ deltas.ascending) ?_ fun l hl =>
      hnone₁ l.id (hmentioned l hl)) ?_ fun _ h => h.elim
    · intro l hl
      rw [hheld, OpenTx.mem_held_missing, mem_accountsOf]
      exact Or.inr (hmentioned l hl)
    · rintro _ t' hputs
      refine ⟨hputs.held.trans hheld, ?_⟩
      rw [← hpending]
      exact pending_of_puts hnet hentries hnone₁ hputs
  · rintro t' rfl
    exact ⟨hpending, _, hheld, List.prefix_refl _⟩

/-- The body of a batch is done or has buffered nothing. -/
theorem leads_applyTransfers {batch : List Transfer}
    (hnone : ∀ id, Mentions batch id → t.pending.get? id = none) :
    (applyTransfers batch).Leads tx t (fun _ t' => DoneBody batch t t') (FailedBody batch t) := by
  rw [applyTransfers]
  cases Transfer.checkAll batch with
  | error o => exact leads_fail (failedBody_self batch t)
  | ok =>
      cases hnet : netDeltas batch with
      | error e => exact leads_fail (failedBody_self batch t)
      | ok deltas => exact leads_applyDeltas hnet hnone

-- Nothing is assumed of the others. They may even put accounts in.
/-- The body of a batch, or of a single transfer, in a transaction that holds any rows and has
buffered any deltas for other accounts, while others do what they like. If it fails, for whatever
reason, the deltas are those of before, and the rows that it has locked are the first ones of the
accounts of the batch, in ascending order and without those that were held. If it returns, all
accounts of the batch are locked, and the deltas are those of before and the net deltas that are not
zero. Either way the transaction goes on. -/
theorem body_all_or_nothing (accounts : Table AccountId Account) (events : List Event)
    (batch : List Transfer) (body : Work Unit)
    (hbody : body = applyTransfers batch ∨ ∃ single, batch = [single] ∧ body = applyTransfer single)
    (tx : TxId) (t : OpenTx) (s s' : Service) (outcome : Except Failure Unit)
    (hstore : s.store = (Store.ofAccounts accounts).after events)
    (hlive : s.store.live.get? tx = some t) (hidle : t.blocked = none)
    (houtside : ∀ id, Mentions batch id → t.pending.get? id = none)
    (hrun : Amidst tx body s (.done outcome) s') :
    ∃ t', s'.store.live.get? tx = some t' ∧ t'.blocked = none ∧
      match outcome with
      | .error _ => t'.pending = t.pending ∧
          ∃ new, t'.held = t.held ++ new ∧ new <+: t.missing (accountsOf batch)
      | .ok () => t'.held = t.held ++ t.missing (accountsOf batch) ∧
          (∀ id, Mentions batch id → s'.store.locks.holders.get? id = some tx) ∧
          ∀ id, ∃ delta, runningSum (postings batch) id = some delta ∧
            t'.pending.get? id = if delta.isZero then t.pending.get? id else some delta := by
  have hcons : s.store.Consistent := by
    rw [hstore]
    exact Store.consistent_after (Store.consistent_ofAccounts accounts) events
  have hopen : s.store.OpenAs tx t := ⟨hcons, hlive, hidle⟩
  have hleads : body.Leads tx t (fun _ t' => DoneBody batch t t') (FailedBody batch t) := by
    rcases hbody with rfl | ⟨single, rfl, rfl⟩
    · exact leads_applyTransfers houtside
    · exact leads_applyTransfers houtside
  rcases hleads s s' outcome hopen hrun with ⟨t', hopen', hpost⟩
  refine ⟨t', hopen'.live, hopen'.idle, ?_⟩
  cases outcome with
  | error e => exact ⟨hpost.pending, hpost.held⟩
  | ok =>
      refine ⟨hpost.held, ?_, hpost.pending⟩
      intro id hid
      refine (hopen'.consistent.holder_iff id tx).2 ⟨t', hopen'.live, ?_⟩
      rw [hpost.held, OpenTx.mem_held_missing, mem_accountsOf]
      exact Or.inr hid

/-- The first transaction holds the second account and has buffered a delta for the fourth one. The
second transaction holds the third account. -/
def midway : Service :=
  .ofStore ((Store.ofAccounts .empty).after
    [.insert 1 (.ofUInt64 10), .insert 2 (.ofUInt64 10), .insert 3 (.ofUInt64 10),
      .insert 4 (.ofUInt64 10), .start, .start, .call 1 (.request (.query 2)),
      .call 1 (.request (.update 4 (.ofUInt64 7))), .call 2 (.request (.query 3))])

/-- Three accounts, of which the second one gives what it takes. -/
def passOn : List Transfer := [⟨1, 2, .ofUInt64 3⟩, ⟨2, 3, .ofUInt64 3⟩]

-- The body waits for the third account until the second transaction has committed. Or the second
-- transaction asks for the first account before that, and then the body closes a cycle.
theorem body_all_or_nothing_midway :
    ∃ s₁ t₁ s₂ t₂ e, Amidst 1 (applyTransfers passOn) midway (.done (.ok ())) s₁ ∧
      Amidst 1 (applyTransfers passOn) midway (.done (.error e)) s₂ ∧
      (s₁.store.live.get? 1 = some t₁ ∧ t₁.held = [2, 4, 1, 3] ∧
        t₁.pending.get? 3 = some (.ofUInt64 3) ∧ t₁.pending.get? 2 = none) ∧
      s₂.store.live.get? 1 = some t₂ ∧ t₂.pending = Table.empty.insert 4 (.ofUInt64 7) := by
  let t : OpenTx := ⟨[2, 4], Table.empty.insert 4 (.ofUInt64 7), none⟩
  have hlive : midway.store.live.get? 1 = some t := by decide +kernel
  have houtside : ∀ id, Mentions passOn id → t.pending.get? id = none := by
    intro id hid
    have hmem := mem_accountsOf.2 hid
    have hnone : ∀ id ∈ accountsOf passOn, t.pending.get? id = none := by decide +kernel
    exact hnone id hmem
  have hblocked := amidst_amid 1 (applyTransfers passOn) [] midway
  have hended : ((((applyTransfers passOn).amid 1 [] midway).2.1.work).amid 1 [[.call 2 .commit]]
      ((applyTransfers passOn).amid 1 [] midway).2.2).2.1.outcome? = some (.ok ()) := by
    decide +kernel
  have hfails : ((applyTransfers passOn).amid 1 [[], [], [.call 2 (.request (.query 1))]]
      midway).2.1.outcome? = some (.error (.ofStoreFault (Refusal.deadlock 1 3 2).toFault)) := by
    decide +kernel
  have hdone := amidst_trans hblocked (amidst_of_outcome hended)
  have hfailed := amidst_of_outcome hfails
  rcases body_all_or_nothing .empty _ passOn _ (Or.inl rfl) 1 t midway _ _ rfl hlive rfl houtside
    hdone with ⟨t₁, hlive₁, _, hheld, _, hpending⟩
  rcases body_all_or_nothing .empty _ passOn _ (Or.inl rfl) 1 t midway _ _ rfl hlive rfl houtside
    hfailed with ⟨t₂, hlive₂, _, hkept, _⟩
  refine ⟨_, t₁, _, t₂, _, hdone, hfailed, ⟨hlive₁, ?_, ?_, ?_⟩, hlive₂, hkept⟩
  · rw [hheld]
    decide +kernel
  · rcases hpending 3 with ⟨delta, hsum, hget⟩
    have hthree : runningSum (postings passOn) 3 = some (.ofUInt64 3) := by decide +kernel
    rw [hthree, Option.some.injEq] at hsum
    rw [hget, ← hsum]
    rfl
  · rcases hpending 2 with ⟨delta, hsum, hget⟩
    have hzero : runningSum (postings passOn) 2 = some .zero := by decide +kernel
    rw [hzero, Option.some.injEq] at hsum
    rw [hget, ← hsum]
    rfl

end Work

end RowLedger
