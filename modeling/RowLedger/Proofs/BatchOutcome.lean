import RowLedger.Proofs.RunningSums
import RowLedger.Proofs.Undisturbed

/-!
# What becomes of a batch

All that can become of a batch of transfers while nobody else has to do with
its accounts, and when. A transfer that is none comes before everything else,
and an empty batch is done without a transaction. Then comes the first sum of
the batch itself that leaves the range, then the lowest account that is not
there, then the lowest one whose balance does not bear what the batch demands
of it. Only a batch to which there is no objection can meet a conflict that is
due, and one that meets none is written. These ways to end exclude each other.

The commit never objects to what was checked before. What it adds up is the
balance that was read, up to the places of a zero, and the delta that was
checked, since nothing was pending for the account before.

## Main definitions

* `Bears`: An account bears what a batch demands of it.
* `Rejected`, `Accepted`: There is an objection to a batch, or there is none.
* `Written`: What a batch does to the accounts.
* `Store.BatchEnds`: What becomes of a batch.
* `Overcharged`: The lowest account that does not bear a batch.

## Theorems

* `rejected_unique`, `not_rejected_of_accepted`: One objection at most, and none
  to what is accepted.
* `batchEnds_unique`: A batch ends in one way at most.
* `endsIn_lockAll`, `endsIn_checkResults`, `endsIn_writeAll`: The three phases.
* `rejected_or_accepted`: How the body of a batch ends.
* `exists_applyAll`: Deltas to which nothing is objected can be applied.
* `batch_complete`: Every batch ends in one of these ways.
-/

namespace RowLedger

/-- The account is there, and its balance is neither negative nor out of range after the batch. -/
def Bears (accounts : Table AccountId Account) (batch : List Transfer) (id : AccountId) : Prop :=
  ∃ account delta next, accounts.get? id = some account ∧
    runningSum (postings batch) id = some delta ∧ account.balance.add? delta = some next ∧
    next.isNegative = false

/-- The objection to a batch of transfers. -/
inductive Rejected (accounts : Table AccountId Account) (batch : List Transfer) :
    Failure → Prop where
  /-- The first sum that leaves the range on its way through the list. -/
  | sumLeaves {id : AccountId} (hleaves : LeavesAt (postings batch) id) :
      Rejected accounts batch (.overflow id)
  /-- The lowest account that is mentioned and not there. -/
  | missing {id : AccountId} (hsums : ∀ other, (runningSum (postings batch) other).isSome = true)
      (hmentioned : Mentions batch id) (hmissing : accounts.get? id = none)
      (hlow : ∀ other, Mentions batch other → other < id → (accounts.get? other).isSome = true) :
      Rejected accounts batch (.accountNotFound id)
  /-- The lowest account that does not bear the batch, because its balance leaves the range. -/
  | balanceLeaves {id : AccountId} {account : Account} {delta : Decimal}
      (hsums : ∀ other, (runningSum (postings batch) other).isSome = true)
      (hthere : ∀ other, Mentions batch other → (accounts.get? other).isSome = true)
      (hmentioned : Mentions batch id) (haccount : accounts.get? id = some account)
      (hdelta : runningSum (postings batch) id = some delta)
      (hnext : account.balance.add? delta = none)
      (hlow : ∀ other, Mentions batch other → other < id → Bears accounts batch other) :
      Rejected accounts batch (.overflow id)
  /-- The lowest account that does not bear the batch, because its balance becomes negative. -/
  | fundsMissing {id : AccountId} {account : Account} {delta next : Decimal}
      (hsums : ∀ other, (runningSum (postings batch) other).isSome = true)
      (hthere : ∀ other, Mentions batch other → (accounts.get? other).isSome = true)
      (hmentioned : Mentions batch id) (haccount : accounts.get? id = some account)
      (hdelta : runningSum (postings batch) id = some delta)
      (hnext : account.balance.add? delta = some next) (hnegative : next.isNegative = true)
      (hlow : ∀ other, Mentions batch other → other < id → Bears accounts batch other) :
      Rejected accounts batch (.insufficientFunds id account.balance.shown delta.neg)

/-- There is no objection to a batch. -/
structure Accepted (accounts : Table AccountId Account) (batch : List Transfer) : Prop where
  sums : ∀ id, (runningSum (postings batch) id).isSome = true
  bears : ∀ id, Mentions batch id → Bears accounts batch id

/-- Exactly the accounts with a net delta that is not zero have their new balance, and one version
more. -/
def Written (batch : List Transfer) (before after : Table AccountId Account) : Prop :=
  ∀ id delta, runningSum (postings batch) id = some delta →
    if delta.isZero then after.get? id = before.get? id
    else ∃ account next, before.get? id = some account ∧
      account.balance.add? delta = some next ∧
      after.get? id = some { account with balance := next, version := account.version + 1 }

/-- What becomes of a batch while nobody else has to do with its accounts. A transaction is begun
only for transfers, and for at least one of them. -/
inductive Store.BatchEnds (s : Store) (batch : List Transfer) :
    Except Failure Unit → Store → Prop where
  /-- The first transfer that is none. No transaction is begun. -/
  | invalid {before after : List Transfer} {t : Transfer} {o : Objection}
      (hsplit : batch = before ++ t :: after) (hvalid : ∀ u ∈ before, u.check = .ok ())
      (hcheck : t.check = .error o) : s.BatchEnds batch (.error (.ofObjection o)) s
  /-- All that can become of an empty batch. No transaction is begun for it either. -/
  | nothing (hempty : batch = []) : s.BatchEnds batch (.ok ()) s
  | rejected {s' : Store} {e : Failure} (hne : batch ≠ [])
      (hvalid : ∀ t ∈ batch, t.check = .ok ()) (hrejected : Rejected s.accounts batch e)
      (hafter : s.start.2.Without s.start.1 s.accounts s.conflictsDue s') :
      s.BatchEnds batch (.error e) s'
  | conflict {s' : Store} {due : Nat} (hne : batch ≠ [])
      (hvalid : ∀ t ∈ batch, t.check = .ok ()) (haccepted : Accepted s.accounts batch)
      (hdue : s.conflictsDue = due + 1)
      (hafter : s.start.2.Without s.start.1 s.accounts due s') :
      s.BatchEnds batch (.error (.conflict
        (.serialization "could not serialize access due to concurrent update"))) s'
  | booked {s' : Store} {accounts : Table AccountId Account} (hne : batch ≠ [])
      (hvalid : ∀ t ∈ batch, t.check = .ok ()) (haccepted : Accepted s.accounts batch)
      (hdue : s.conflictsDue = 0) (hwritten : Written batch s.accounts accounts)
      (hafter : s.start.2.Without s.start.1 accounts 0 s') :
      s.BatchEnds batch (.ok ()) s'

section Precedence

variable {accounts : Table AccountId Account} {batch : List Transfer} {id id' : AccountId}
  {account account' : Account} {delta delta' : Decimal} {e e' : Failure}

/-- The lowest account that does not bear a batch, and what the batch demands of it. -/
structure Overcharged (accounts : Table AccountId Account) (batch : List Transfer)
    (id : AccountId) (account : Account) (delta : Decimal) : Prop where
  mentioned : Mentions batch id
  there : accounts.get? id = some account
  demand : runningSum (postings batch) id = some delta
  refused : ∀ next, account.balance.add? delta = some next → next.isNegative = true
  low : ∀ other, Mentions batch other → other < id → Bears accounts batch other

theorem Overcharged.not_bears (h : Overcharged accounts batch id account delta) :
    ¬ Bears accounts batch id := by
  rintro ⟨account', delta', next, haccount, hdelta, hnext, hnonneg⟩
  rw [h.there, Option.some.injEq] at haccount
  rw [h.demand, Option.some.injEq] at hdelta
  subst haccount hdelta
  rw [h.refused next hnext] at hnonneg
  simp at hnonneg

/-- Two accounts are the same if each is the lowest one that is not good. -/
theorem lowest_unique {good : AccountId → Prop} (hid : Mentions batch id) (hbad : ¬ good id)
    (hlow : ∀ other, Mentions batch other → other < id → good other) (hid' : Mentions batch id')
    (hbad' : ¬ good id') (hlow' : ∀ other, Mentions batch other → other < id' → good other) :
    id = id' := by
  rcases Int.lt_trichotomy id id' with hlt | heq | hlt
  · exact absurd (hlow' id hid hlt) hbad
  · exact heq
  · exact absurd (hlow id' hid' hlt) hbad'

theorem Overcharged.unique (h : Overcharged accounts batch id account delta)
    (h' : Overcharged accounts batch id' account' delta') :
    id = id' ∧ account = account' ∧ delta = delta' := by
  have hid := lowest_unique h.mentioned h.not_bears h.low h'.mentioned h'.not_bears h'.low
  subst hid
  have hthere := h'.there
  have hdemand := h'.demand
  rw [h.there, Option.some.injEq] at hthere
  rw [h.demand, Option.some.injEq] at hdemand
  exact ⟨rfl, hthere, hdemand⟩

/-- The three stages of the objections. Each is reached only past the ones before it. -/
theorem Rejected.stage (h : Rejected accounts batch e) :
    (∃ id, LeavesAt (postings batch) id ∧ e = .overflow id) ∨
    (∀ id, (runningSum (postings batch) id).isSome = true) ∧
      ((∃ id, Mentions batch id ∧ ¬ (accounts.get? id).isSome = true ∧
          (∀ other, Mentions batch other → other < id → (accounts.get? other).isSome = true) ∧
          e = .accountNotFound id) ∨
        (∀ id, Mentions batch id → (accounts.get? id).isSome = true) ∧
          ∃ id account delta, Overcharged accounts batch id account delta ∧
            e = if (account.balance.add? delta).isSome then
              .insufficientFunds id account.balance.shown delta.neg else .overflow id) := by
  cases h with
  | sumLeaves hleaves => exact Or.inl ⟨_, hleaves, rfl⟩
  | missing hsums hmentioned hmissing hlow =>
      exact Or.inr ⟨hsums, Or.inl ⟨_, hmentioned, by simp [hmissing], hlow, rfl⟩⟩
  -- The last two are about the same account, so they are one stage.
  | balanceLeaves hsums hthere hmentioned haccount hdelta hnext hlow =>
      have hover : Overcharged accounts batch _ _ _ :=
        ⟨hmentioned, haccount, hdelta, by simp [hnext], hlow⟩
      exact Or.inr ⟨hsums, Or.inr ⟨hthere, _, _, _, hover, by simp [hnext]⟩⟩
  | fundsMissing hsums hthere hmentioned haccount hdelta hnext hnegative hlow =>
      have hover : Overcharged accounts batch _ _ _ :=
        ⟨hmentioned, haccount, hdelta, by simp [hnext, hnegative], hlow⟩
      exact Or.inr ⟨hsums, Or.inr ⟨hthere, _, _, _, hover, by simp [hnext]⟩⟩

-- The cases go stage by stage. Two objections of different stages exclude each other, since the
-- later one knows that the earlier stage was passed.
/-- There is only one objection to a batch. -/
theorem rejected_unique (h : Rejected accounts batch e) (h' : Rejected accounts batch e') :
    e = e' := by
  rcases h.stage with ⟨id, hleaves, rfl⟩ | ⟨hall, h⟩
  · rcases h'.stage with ⟨id', hleaves', rfl⟩ | ⟨hall, _⟩
    · rw [leaves_unique hleaves hleaves']
    · exact absurd hall (not_sums_of_leaves hleaves)
  · rcases h'.stage with ⟨id', hleaves', _⟩ | ⟨_, h'⟩
    · exact absurd hall (not_sums_of_leaves hleaves')
    · rcases h with ⟨id, hid, hmissing, hlow, rfl⟩ | ⟨hthere, id, account, delta, hover, rfl⟩
      · rcases h' with ⟨id', hid', hmissing', hlow', rfl⟩ | ⟨hthere, _⟩
        · rw [lowest_unique hid hmissing hlow hid' hmissing' hlow']
        · exact absurd (hthere id hid) hmissing
      · rcases h' with ⟨id', hid', hmissing', _⟩ | ⟨_, id', account', delta', hover', rfl⟩
        · exact absurd (hthere id' hid') hmissing'
        · rcases hover.unique hover' with ⟨rfl, rfl, rfl⟩
          rfl

/-- There is no objection to a batch that is accepted. -/
theorem not_rejected_of_accepted (haccepted : Accepted accounts batch) :
    ¬ Rejected accounts batch e := by
  intro hrejected
  rcases hrejected.stage with ⟨id, hleaves, _⟩ | ⟨_, ⟨id, hid, hmissing, _⟩ | ⟨_, _, _, _, hover, _⟩⟩
  · exact not_sums_of_leaves hleaves haccepted.sums
  · rcases haccepted.bears id hid with ⟨account, _, _, haccount, _⟩
    exact hmissing (by rw [haccount]; rfl)
  · exact hover.not_bears (haccepted.bears _ hover.mentioned)

/-- A batch ends in one way only. What comes first decides. -/
theorem Store.batchEnds_unique {s s₁ s₂ : Store} {outcome outcome' : Except Failure Unit}
    (h : s.BatchEnds batch outcome s₁) (h' : s.BatchEnds batch outcome' s₂) :
    outcome = outcome' := by
  -- Whatever ends later than the check has no transfer that is none.
  have hchecked : ∀ {before after t o}, batch = before ++ t :: after → t.check = .error o →
      ¬ ∀ u ∈ batch, u.check = .ok () := by
    rintro before after t o rfl hcheck hvalid
    rw [hvalid t (List.mem_append_right _ List.mem_cons_self)] at hcheck
    simp at hcheck
  cases h with
  | invalid hsplit hvalid hcheck =>
      cases h' with
      | invalid hsplit' hvalid' hcheck' =>
          have hfirst := Transfer.checkAll_error_iff.2 ⟨_, _, _, hsplit, hvalid, hcheck⟩
          rw [Transfer.checkAll_error_iff.2 ⟨_, _, _, hsplit', hvalid', hcheck'⟩,
            Except.error.injEq] at hfirst
          rw [hfirst]
      | nothing hempty => simp [hempty] at hsplit
      | rejected _ hall | conflict _ hall | booked _ hall =>
          exact absurd hall (hchecked hsplit hcheck)
  | nothing hempty =>
      cases h' with
      | invalid hsplit' => simp [hempty] at hsplit'
      | nothing => rfl
      | rejected hne | conflict hne | booked hne => exact absurd hempty hne
  | rejected hne hall hrejected =>
      cases h' with
      | invalid hsplit' _ hcheck' => exact absurd hall (hchecked hsplit' hcheck')
      | nothing hempty => exact absurd hempty hne
      | rejected _ _ hrejected' => rw [rejected_unique hrejected hrejected']
      | conflict _ _ haccepted | booked _ _ haccepted =>
          exact absurd hrejected (not_rejected_of_accepted haccepted)
  | conflict hne hall haccepted hdue =>
      cases h' with
      | invalid hsplit' _ hcheck' => exact absurd hall (hchecked hsplit' hcheck')
      | nothing hempty => exact absurd hempty hne
      | rejected _ _ hrejected => exact absurd hrejected (not_rejected_of_accepted haccepted)
      | conflict => rfl
      | booked _ _ _ hdue' => simp [hdue] at hdue'
  | booked hne hall haccepted hdue =>
      cases h' with
      | invalid hsplit' _ hcheck' => exact absurd hall (hchecked hsplit' hcheck')
      | nothing hempty => exact absurd hempty hne
      | rejected _ _ hrejected => exact absurd hrejected (not_rejected_of_accepted haccepted)
      | conflict _ _ _ hdue' => simp [hdue] at hdue'
      | booked => rfl

end Precedence

/-- Below an entry of a table are only entries before it. -/
theorem Table.mem_before {table : Table AccountId Decimal}
    {before after : List (AccountId × Decimal)} {e e' : AccountId × Decimal}
    (hsplit : table.entries = before ++ e :: after) (hmem : e' ∈ table.entries)
    (hlt : e'.1 < e.1) : e' ∈ before := by
  have hasc := table.ascending
  rw [hsplit, List.pairwise_append] at hasc
  rw [hsplit, List.mem_append, List.mem_cons] at hmem
  rcases hmem with hbefore | rfl | hafter
  · exact hbefore
  · exact absurd hlt (Int.lt_irrefl _)
  · have hgt := (List.pairwise_cons.1 hasc.2.1).1 e' hafter
    exact absurd (Int.lt_trans hlt hgt) (Int.lt_irrefl _)

namespace Work

variable {s₀ : Store} {tx : TxId} {t : OpenTx}

/-- What locking accounts reads, or the first account that is not there. -/
def readAll (accounts : Table AccountId Account) :
    List (AccountId × Decimal) → Except Failure (List Locked)
  | [] => .ok []
  | (id, delta) :: rest =>
    match accounts.get? id with
    | none => .error (.accountNotFound id)
    | some account =>
      match readAll accounts rest with
      | .error e => .error e
      | .ok others => .ok (⟨id, account.balance.shown, delta⟩ :: others)

theorem readAll_ok {accounts : Table AccountId Account} {entries : List (AccountId × Decimal)}
    {locked : List Locked} (h : readAll accounts entries = .ok locked) :
    locked.map Locked.entry = entries ∧ ∀ l ∈ locked, ∃ account,
      accounts.get? l.id = some account ∧ l.balance = account.balance.shown := by
  induction entries generalizing locked with
  | nil =>
      rw [readAll, Except.ok.injEq] at h
      rw [← h]
      exact ⟨rfl, by simp⟩
  | cons e rest ih =>
      rw [readAll] at h
      cases haccount : accounts.get? e.1 with
      | none => simp [haccount] at h
      | some account =>
          cases hrest : readAll accounts rest with
          | error f => simp [haccount, hrest] at h
          | ok others =>
              simp only [haccount, hrest, Except.ok.injEq] at h
              rcases ih hrest with ⟨hentries, hread⟩
              rw [← h, List.map_cons, hentries]
              refine ⟨rfl, ?_⟩
              intro l hl
              rcases List.mem_cons.1 hl with rfl | hl
              · exact ⟨account, haccount, rfl⟩
              · exact hread l hl

theorem readAll_error {accounts : Table AccountId Account} {entries : List (AccountId × Decimal)}
    {f : Failure} (h : readAll accounts entries = .error f) :
    ∃ before e after, entries = before ++ e :: after ∧
      (∀ e' ∈ before, (accounts.get? e'.1).isSome = true) ∧ accounts.get? e.1 = none ∧
      f = .accountNotFound e.1 := by
  induction entries with
  | nil => simp [readAll] at h
  | cons e rest ih =>
      rw [readAll] at h
      cases haccount : accounts.get? e.1 with
      | none =>
          simp only [haccount, Except.error.injEq] at h
          exact ⟨[], e, rest, rfl, by simp, haccount, h.symm⟩
      | some account =>
          cases hrest : readAll accounts rest with
          | ok others => simp [haccount, hrest] at h
          | error f' =>
              simp only [haccount, hrest, Except.error.injEq] at h
              rcases ih (h ▸ hrest) with ⟨before, last, after, hsplit, hthere, hmissing, hf⟩
              refine ⟨e :: before, last, after, by rw [hsplit]; rfl, ?_, hmissing, hf⟩
              intro e' he'
              rcases List.mem_cons.1 he' with rfl | he'
              · rw [haccount]
                rfl
              · exact hthere e' he'

/-- Accounts are locked and read one after another, as far as they are there. -/
theorem endsIn_lockAll (s₀ : Store) (tx : TxId) {entries : List (AccountId × Decimal)}
    (hasc : entries.Pairwise fun a b => a.1 < b.1) (hnew : ∀ e ∈ entries, e.1 ∉ t.held)
    (hpending : t.pending = .empty)
    (hfree : ∀ e ∈ entries, s₀.locks.holders.get? e.1 = none) :
    ∃ t', (lockAll entries).EndsIn s₀ tx t (readAll s₀.accounts entries) t' ∧
      t'.pending = .empty ∧ (∀ locked, readAll s₀.accounts entries = .ok locked →
        t'.held = t.held ++ entries.map (·.1)) := by
  induction entries generalizing t with
  | nil =>
      refine ⟨t, endsIn_done _ t, hpending, ?_⟩
      intro _ _
      rw [List.map_nil, List.append_nil]
  | cons e rest ih =>
      rcases List.pairwise_cons.1 hasc with ⟨hfirst, hasc'⟩
      have hnew₀ := hnew e List.mem_cons_self
      have hpending₀ : t.pending.get? e.1 = none := by
        rw [hpending]
        rfl
      rw [lockAll, readAll]
      cases haccount : s₀.accounts.get? e.1 with
      | none =>
          refine ⟨t, endsIn_fail (endsIn_query_absent hnew₀ haccount), hpending, ?_⟩
          simp
      | some account =>
          have hquery : (query e.1).EndsIn s₀ tx t (.ok account.balance.shown) (t.lock e.1) :=
            endsIn_query hnew₀ hpending₀ (hfree e List.mem_cons_self) haccount
          -- The row that was locked last is not among the others.
          have hnew' : ∀ e' ∈ rest, e'.1 ∉ (t.lock e.1).held := by
            intro e' he' hmem
            rw [OpenTx.lock_held, List.mem_append, List.mem_singleton] at hmem
            rcases hmem with hmem | heq
            · exact hnew e' (List.mem_cons_of_mem _ he') hmem
            · exact absurd (heq ▸ hfirst e' he') (Int.lt_irrefl _)
          rcases ih hasc' hnew' hpending fun e' he' => hfree e' (List.mem_cons_of_mem _ he') with
            ⟨t', hrest, hpending', hheld⟩
          cases hread : readAll s₀.accounts rest with
          | error f =>
              rw [hread] at hrest
              refine ⟨t', endsIn_bind hquery (endsIn_fail hrest), hpending', ?_⟩
              simp
          | ok others =>
              rw [hread] at hrest
              refine ⟨t', endsIn_bind hquery (endsIn_bind hrest (endsIn_done _ _)), hpending', ?_⟩
              intro _ _
              rw [hheld others hread, OpenTx.lock_held, List.append_assoc]
              rfl

/-- The results are checked without a call. -/
theorem endsIn_checkResults (s₀ : Store) (tx : TxId) (locked : List Locked) (t : OpenTx) :
    ((∀ l ∈ locked, l.objection? = none) ∧ (checkResults locked).EndsIn s₀ tx t (.ok ()) t) ∨
      ∃ before l after objection, locked = before ++ l :: after ∧
        (∀ l' ∈ before, l'.objection? = none) ∧ l.objection? = some objection ∧
        (checkResults locked).EndsIn s₀ tx t (.error objection.2) t := by
  rw [checkResults]
  cases hfind : locked.findSome? Locked.objection? with
  | none => exact Or.inl ⟨List.findSome?_eq_none_iff.1 hfind, endsIn_done _ t⟩
  | some objection =>
      rcases List.findSome?_eq_some_iff.1 hfind with ⟨before, l, after, hsplit, hl, hbefore⟩
      exact Or.inr ⟨before, l, after, objection, hsplit, hbefore, hl,
        endsIn_bind (endsIn_say _ t) (endsIn_done _ t)⟩

/-- What is written is held already, and each row is written once. -/
theorem endsIn_writeAll (s₀ : Store) (tx : TxId) {locked : List Locked}
    (hasc : (locked.map Locked.entry).Pairwise fun a b => a.1 < b.1)
    (hheld : ∀ l ∈ locked, l.id ∈ t.held)
    (hlow : ∀ e ∈ t.pending.entries, ∀ l ∈ locked, e.1 < l.id) :
    ∃ t', (writeAll locked).EndsIn s₀ tx t (.ok ()) t' ∧
      t'.pending.entries = t.pending.entries ++ (locked.map Locked.entry).filter matters := by
  induction locked generalizing t with
  | nil =>
      refine ⟨t, endsIn_done _ t, ?_⟩
      rw [List.map_nil, List.filter_nil, List.append_nil]
  | cons l rest ih =>
      rcases List.pairwise_cons.1 hasc with ⟨hfirst, hasc'⟩
      have hheld' : ∀ l' ∈ rest, l'.id ∈ t.held := fun l' hl' =>
        hheld l' (List.mem_cons_of_mem _ hl')
      have hlow' : ∀ e ∈ t.pending.entries, ∀ l' ∈ rest, e.1 < l'.id := fun e he l' hl' =>
        hlow e he l' (List.mem_cons_of_mem _ hl')
      have hlow₀ : ∀ e ∈ t.pending.entries, e.1 < l.id := fun e he =>
        hlow e he l List.mem_cons_self
      rw [writeAll]
      cases hzero : l.delta.isZero with
      | true =>
          rw [if_pos rfl]
          rcases ih hasc' hheld' hlow' with ⟨t', hrest, hpending⟩
          refine ⟨t', hrest, ?_⟩
          rw [hpending, List.map_cons, List.filter_cons_of_neg (by simp [matters_entry hzero])]
      | false =>
          rw [if_neg Bool.false_ne_true]
          have hnone : t.pending.get? l.id = none := by
            cases hget : t.pending.get? l.id with
            | none => rfl
            | some sum =>
                have hlt := hlow₀ (l.id, sum) ((Table.mem_entries_iff _ _ _).2 hget)
                exact absurd hlt (Int.lt_irrefl l.id)
          have hplaced : (t.pending.insert l.id l.delta).entries =
              t.pending.entries ++ [l.entry] := Table.place_last l.delta hlow₀
          have hupdate : (update l.id l.delta).EndsIn s₀ tx t (.ok ())
              { t with pending := t.pending.insert l.id l.delta } :=
            endsIn_update (hheld l List.mem_cons_self) hnone
          have hlow'' : ∀ e ∈ (t.pending.insert l.id l.delta).entries, ∀ l' ∈ rest,
              e.1 < l'.id := by
            intro e he l' hl'
            rw [hplaced, List.mem_append, List.mem_singleton] at he
            rcases he with he | rfl
            · exact hlow' e he l' hl'
            · exact hfirst l'.entry (List.mem_map.2 ⟨l', hl', rfl⟩)
          rcases ih (t := { t with pending := t.pending.insert l.id l.delta }) hasc' hheld'
            hlow'' with ⟨t', hrest, hpending⟩
          refine ⟨t', endsIn_bind hupdate hrest, ?_⟩
          rw [hpending, hplaced, List.map_cons,
            List.filter_cons_of_pos (by simp [matters_entry hzero]), List.append_assoc]
          rfl

end Work

section Body

variable {accounts : Table AccountId Account} {batch : List Transfer} {deltas : Deltas}

/-- The entries of the net deltas are the sums of the accounts that are mentioned. -/
theorem mem_netDeltas (hnet : netDeltas batch = .ok deltas) {e : AccountId × Decimal}
    (hmem : e ∈ deltas.entries) :
    Mentions batch e.1 ∧ runningSum (postings batch) e.1 = some e.2 := by
  have hget : deltas.get? e.1 = some e.2 := (Table.mem_entries_iff _ _ _).1 hmem
  rcases netDeltas_ok hnet e.1 with ⟨hsum, hkeys⟩
  exact ⟨hkeys.1 (by rw [hget]; rfl), hsum.trans (by rw [Deltas.current_of_some hget])⟩

theorem exists_entry (hnet : netDeltas batch = .ok deltas) {id : AccountId}
    (hmentioned : Mentions batch id) : ∃ delta, (id, delta) ∈ deltas.entries := by
  rcases Option.isSome_iff_exists.1 ((netDeltas_ok hnet id).2.2 hmentioned) with ⟨delta, hget⟩
  exact ⟨delta, (Table.mem_entries_iff _ _ _).2 hget⟩

theorem sums_of_netDeltas (hnet : netDeltas batch = .ok deltas) (id : AccountId) :
    (runningSum (postings batch) id).isSome = true := by
  rw [(netDeltas_ok hnet id).1]
  rfl

/-- An account to which nothing was objected bears the batch. -/
theorem bears_of_allowed (hnet : netDeltas batch = .ok deltas) {l : Locked}
    (hmem : l.entry ∈ deltas.entries)
    (hread : ∃ account, accounts.get? l.id = some account ∧ l.balance = account.balance.shown)
    (hallowed : l.objection? = none) : Bears accounts batch l.id := by
  rcases hread with ⟨account, haccount, hbalance⟩
  rw [Locked.objection?, hbalance, Decimal.add?_shown] at hallowed
  cases hnext : account.balance.add? l.delta with
  | none => simp [hnext] at hallowed
  | some next =>
      cases hnegative : next.isNegative with
      | true => simp [hnext, hnegative] at hallowed
      | false => exact ⟨account, l.delta, next, haccount, (mem_netDeltas hnet hmem).2, hnext,
          hnegative⟩

section Reading

variable {locked : List Locked} (hnet : netDeltas batch = .ok deltas)
include hnet

/-- An account that cannot be locked is the lowest one that is not there. -/
theorem rejected_of_missing {e : Failure}
    (hread : Work.readAll accounts deltas.entries = .error e) : Rejected accounts batch e := by
  rcases Work.readAll_error hread with ⟨before, f, after, hsplit, hthere, hmissing, rfl⟩
  have hmem : f ∈ deltas.entries := by
    rw [hsplit]
    exact List.mem_append_right _ List.mem_cons_self
  refine .missing (sums_of_netDeltas hnet) (mem_netDeltas hnet hmem).1 hmissing ?_
  intro other hmentioned hlt
  rcases exists_entry hnet hmentioned with ⟨delta, hentry⟩
  exact hthere _ (Table.mem_before hsplit hentry hlt)

variable (hread : Work.readAll accounts deltas.entries = .ok locked)
include hread

omit hnet in
theorem entry_of_locked {l : Locked} (hl : l ∈ locked) : l.entry ∈ deltas.entries := by
  rw [← (Work.readAll_ok hread).1]
  exact List.mem_map.2 ⟨l, hl, rfl⟩

/-- All accounts that are mentioned have been locked. -/
theorem locked_of_mentions {id : AccountId} (hmentioned : Mentions batch id) :
    ∃ l ∈ locked, l.id = id := by
  rcases exists_entry hnet hmentioned with ⟨delta, hentry⟩
  rw [← (Work.readAll_ok hread).1] at hentry
  rcases List.mem_map.1 hentry with ⟨l, hl, hid⟩
  exact ⟨l, hl, congrArg Prod.fst hid⟩

/-- Without an objection every account bears the batch. -/
theorem accepted_of_allowed (hallowed : ∀ l ∈ locked, l.objection? = none) :
    Accepted accounts batch where
  sums := sums_of_netDeltas hnet
  bears id hmentioned := by
    rcases locked_of_mentions hnet hread hmentioned with ⟨l, hl, rfl⟩
    exact bears_of_allowed hnet (entry_of_locked hread hl) ((Work.readAll_ok hread).2 l hl)
      (hallowed l hl)

/-- The first objection is about the lowest account that does not bear the batch. -/
theorem rejected_of_objection {before after : List Locked} {l : Locked}
    {objection : Notice × Failure} (hsplit : locked = before ++ l :: after)
    (hbefore : ∀ l' ∈ before, l'.objection? = none) (hbad : l.objection? = some objection) :
    Rejected accounts batch objection.2 := by
  have hreads := (Work.readAll_ok hread).2
  have hl : l ∈ locked := by
    rw [hsplit]
    exact List.mem_append_right _ List.mem_cons_self
  have hthere : ∀ id, Mentions batch id → (accounts.get? id).isSome = true := by
    intro id hmentioned
    rcases locked_of_mentions hnet hread hmentioned with ⟨l', hl', rfl⟩
    rcases hreads l' hl' with ⟨account, haccount, _⟩
    rw [haccount]
    rfl
  have hlow : ∀ other, Mentions batch other → other < l.id → Bears accounts batch other := by
    intro other hmentioned hlt
    rcases exists_entry hnet hmentioned with ⟨delta, hentry⟩
    have hcut : deltas.entries =
        before.map Locked.entry ++ l.entry :: after.map Locked.entry := by
      rw [← (Work.readAll_ok hread).1, hsplit, List.map_append, List.map_cons]
    rcases List.mem_map.1 (Table.mem_before hcut hentry hlt) with ⟨l', hl', hid⟩
    have hmem : l' ∈ locked := by
      rw [hsplit]
      exact List.mem_append_left _ hl'
    have hother : l'.id = other := congrArg Prod.fst hid
    exact hother ▸ bears_of_allowed hnet (entry_of_locked hread hmem) (hreads l' hmem)
      (hbefore l' hl')
  have hsums := sums_of_netDeltas hnet
  rcases hreads l hl with ⟨account, haccount, hbalance⟩
  rcases mem_netDeltas hnet (entry_of_locked hread hl) with ⟨hmentioned, hdelta⟩
  rw [Locked.objection?, hbalance, Decimal.add?_shown] at hbad
  cases hnext : account.balance.add? l.delta with
  | none =>
      simp only [hnext, Option.some.injEq] at hbad
      rw [← hbad]
      exact .balanceLeaves hsums hthere hmentioned haccount hdelta hnext hlow
  | some next =>
      cases hnegative : next.isNegative with
      | false => simp [hnext, hnegative] at hbad
      | true =>
          simp only [hnext, hnegative, if_true, Option.some.injEq] at hbad
          rw [← hbad]
          exact .fundsMissing hsums hthere hmentioned haccount hdelta hnext hnegative hlow

end Reading

-- The phases stop at the first objection, and what they have gone through before that is what is
-- known of the lower accounts.
/-- The body of a batch ends with the objection to it, or with the deltas that matter. -/
theorem rejected_or_accepted (s₀ : Store) (tx : TxId) {t : OpenTx}
    (hchecked : Transfer.checkAll batch = .ok ()) (hheld : t.held = [])
    (hpending : t.pending = .empty)
    (hfree : ∀ id, Mentions batch id → s₀.locks.holders.get? id = none) :
    (∃ e t', (Work.applyTransfers batch).EndsIn s₀ tx t (.error e) t' ∧
        Rejected s₀.accounts batch e) ∨
      ∃ deltas t', (Work.applyTransfers batch).EndsIn s₀ tx t (.ok ()) t' ∧
        netDeltas batch = .ok deltas ∧ t'.pending.entries = deltas.entries.filter matters ∧
        Accepted s₀.accounts batch := by
  rw [Work.applyTransfers, hchecked]
  cases hnet : netDeltas batch with
  | error e =>
      rcases netDeltas_error hnet with ⟨id, rfl, hleaves⟩
      exact Or.inl ⟨_, t, Work.endsIn_done _ t, .sumLeaves hleaves⟩
  | ok deltas =>
      simp only [Work.applyDeltas]
      rcases Work.endsIn_lockAll s₀ tx (t := t) deltas.ascending
        (by simp [hheld]) hpending
        (fun e he => hfree e.1 (mem_netDeltas hnet he).1) with ⟨t₁, hlock, hpending₁, hheld₁⟩
      cases hread : Work.readAll s₀.accounts deltas.entries with
      | error e =>
          rw [hread] at hlock
          exact Or.inl ⟨e, t₁, Work.endsIn_fail hlock, rejected_of_missing hnet hread⟩
      | ok locked =>
          rw [hread] at hlock
          have hentries := (Work.readAll_ok hread).1
          have hmine : ∀ l ∈ locked, l.id ∈ t₁.held := by
            intro l hl
            rw [hheld₁ locked hread]
            exact List.mem_append_right _ (List.mem_map.2 ⟨_, entry_of_locked hread hl, rfl⟩)
          rcases Work.endsIn_checkResults s₀ tx locked t₁ with
            ⟨hallowed, hcheck⟩ | ⟨before, l, after, objection, hsplit, hbefore, hbad, hcheck⟩
          · rcases Work.endsIn_writeAll s₀ tx (t := t₁)
              (by rw [hentries]; exact deltas.ascending) hmine
              (by simp [hpending₁, Table.empty]) with ⟨t₂, hwrite, hpending₂⟩
            refine Or.inr ⟨deltas, t₂, Work.endsIn_bind hlock (Work.endsIn_bind hcheck hwrite), rfl,
              ?_, accepted_of_allowed hnet hread hallowed⟩
            rw [hpending₂, hpending₁, hentries]
            rfl
          · exact Or.inl ⟨objection.2, t₁, Work.endsIn_bind hlock (Work.endsIn_fail hcheck),
              rejected_of_objection hnet hread hsplit hbefore hbad⟩

/-- Deltas for different accounts, to each of which alone nothing is objected, can be applied. -/
theorem Store.exists_applyAll (accounts : Table AccountId Account) {l : List (AccountId × Decimal)}
    (hasc : l.Pairwise fun a b => a.1 < b.1)
    (h : ∀ e ∈ l, ∃ account new, accounts.get? e.1 = some account ∧
      applied account e.1 e.2 = .ok new) : ∃ accounts', applyAll accounts l = .ok accounts' := by
  induction l generalizing accounts with
  | nil => exact ⟨accounts, rfl⟩
  | cons e rest ih =>
      rcases List.pairwise_cons.1 hasc with ⟨hfirst, hasc'⟩
      rcases h e List.mem_cons_self with ⟨account, new, haccount, hnew⟩
      have hrest : ∀ e' ∈ rest, ∃ account' new',
          (accounts.insert e.1 new).get? e'.1 = some account' ∧
          applied account' e'.1 e'.2 = .ok new' := by
        intro e' he'
        rcases h e' (List.mem_cons_of_mem _ he') with ⟨account', new', haccount', hnew'⟩
        have hne : e.1 ≠ e'.1 := Int.ne_of_lt (hfirst e' he')
        exact ⟨account', new', by rw [Table.get?_insert, if_neg hne, haccount'], hnew'⟩
      rcases ih _ hasc' hrest with ⟨accounts', hall⟩
      refine ⟨accounts', ?_⟩
      rw [applyAll, haccount]
      simp only [hnew]
      exact hall

theorem Store.applied_of_sum {account : Account} {row : AccountId} {delta next : Decimal}
    (hnext : account.balance.add? delta = some next) (hnegative : next.isNegative = false) :
    applied account row delta =
      .ok { account with balance := next, version := account.version + 1 } := by
  rw [applied, hnext]
  simp only [hnegative, Bool.false_eq_true, if_false]

/-- What was accepted can be committed, and does what the batch says. -/
theorem written_of_accepted (hnet : netDeltas batch = .ok deltas)
    (haccepted : Accepted accounts batch) :
    ∃ accounts', Store.applyAll accounts (deltas.entries.filter matters) = .ok accounts' ∧
      Written batch accounts accounts' := by
  have hasc : (deltas.entries.filter matters).Pairwise fun a b => a.1 < b.1 :=
    deltas.ascending.filter _
  -- What is checked of an account and what is added up at the commit is the same.
  have hbears : ∀ e ∈ deltas.entries.filter matters, ∃ account next,
      accounts.get? e.1 = some account ∧ account.balance.add? e.2 = some next ∧
        Store.applied account e.1 e.2 =
          .ok { account with balance := next, version := account.version + 1 } := by
    intro e he
    rcases mem_netDeltas hnet (List.mem_filter.1 he).1 with ⟨hmentioned, hsum⟩
    rcases haccepted.bears e.1 hmentioned with
      ⟨account, delta, next, haccount, hdelta, hnext, hnegative⟩
    rw [hsum, Option.some.injEq] at hdelta
    rw [← hdelta] at hnext
    exact ⟨account, next, haccount, hnext, Store.applied_of_sum hnext hnegative⟩
  rcases Store.exists_applyAll accounts hasc (fun e he => by
    rcases hbears e he with ⟨account, next, haccount, _, happlied⟩
    exact ⟨account, _, haccount, happlied⟩) with ⟨accounts', hall⟩
  refine ⟨accounts', hall, ?_⟩
  intro id delta hsum
  have hcurrent := (netDeltas_ok hnet id).1
  rw [hsum, Option.some.injEq] at hcurrent
  cases hzero : delta.isZero with
  | true =>
      rw [if_pos rfl]
      refine Store.get?_applyAll_other hall ?_
      rintro e he rfl
      rcases List.mem_filter.1 he with ⟨hmem, hmatters⟩
      have hdelta := (mem_netDeltas hnet hmem).2
      rw [hsum, Option.some.injEq] at hdelta
      rw [matters, ← hdelta, hzero] at hmatters
      simp at hmatters
  | false =>
      rw [if_neg Bool.false_ne_true]
      -- An account that is not in the table has a zero, so this one is there.
      have hget : deltas.get? id = some delta := by
        rw [Deltas.current] at hcurrent
        cases hget : deltas.get? id with
        | none =>
            rw [hget] at hcurrent
            rw [hcurrent] at hzero
            simp [Decimal.isZero, Decimal.zero] at hzero
        | some delta' =>
            rw [hget] at hcurrent
            rw [hcurrent]
            rfl
      have hmem : (id, delta) ∈ deltas.entries.filter matters :=
        List.mem_filter.2 ⟨(Table.mem_entries_iff _ _ _).2 hget, by rw [matters, hzero]; rfl⟩
      rcases hbears _ hmem with ⟨account, next, haccount, hnext, happlied⟩
      rcases Store.get?_applyAll hasc hall hmem haccount with ⟨new, hnew, hafter⟩
      rw [happlied, Except.ok.injEq] at hnew
      exact ⟨account, next, haccount, hnext, hnew ▸ hafter⟩

end Body

namespace Work

variable {α : Type} {s₀ : Store} {tx : TxId} {t t' : OpenTx} {s : Service} {w : Work α}

/-- Work that fails is rolled back. -/
theorem run_concluded_error {e : Failure} (hw : w.EndsIn s₀ tx t (.error e) t')
    (hplan : s.plan = .empty) (hwith : s₀.With tx t s.store) :
    ∃ s', w.concluded.run tx s = (.ended (.error e), s') ∧
      s₀.Without tx s₀.accounts s₀.conflictsDue s'.store := by
  rcases hw s hplan hwith with ⟨s₁, hrun, hplan₁, hwith₁⟩
  refine ⟨(s₁.rollback tx).2, ?_, ?_⟩
  · rw [concluded, run_settle hrun, conclude, run]
    simp only [Service.rollback_answer tx hplan₁]
    rfl
  · rw [Service.rollback_store tx hplan₁]
    exact Store.without_release hwith₁

/-- Work that succeeds is committed, if the commit meets no conflict. -/
theorem run_concluded_ok {a : α} {accounts : Table AccountId Account}
    (hw : w.EndsIn s₀ tx t (.ok a) t') (hplan : s.plan = .empty) (hwith : s₀.With tx t s.store)
    (hall : Store.applyAll s₀.accounts t'.pending.entries = .ok accounts) :
    (∃ due s', s₀.conflictsDue = due + 1 ∧
        w.concluded.run tx s =
          (.ended (.error (.ofStoreFault Refusal.serialization.toFault)), s') ∧
        s₀.Without tx s₀.accounts due s'.store) ∨
      ∃ s', s₀.conflictsDue = 0 ∧ w.concluded.run tx s = (.ended (.ok a), s') ∧
        s₀.Without tx accounts 0 s'.store := by
  rcases hw s hplan hwith with ⟨s₁, hrun, hplan₁, hwith₁⟩
  have hanswer := Service.commit_answer tx hplan₁
  have hstore := Service.commit_store tx hplan₁
  rcases Store.without_commit hwith₁ hall with
    ⟨due, hdue, hresult, hafter⟩ | ⟨hdue, hresult, hafter⟩
  · refine Or.inl ⟨due, (s₁.commit tx).2, hdue, ?_, hstore ▸ hafter⟩
    rw [concluded, run_settle hrun, conclude, run]
    simp only [hanswer, hresult]
    rfl
  · refine Or.inr ⟨(s₁.commit tx).2, hdue, ?_, hstore ▸ hafter⟩
    rw [concluded, run_settle hrun, conclude, run]
    simp only [hanswer, hresult]
    rfl

end Work

namespace Operation

/-- A transaction that has ended is dropped without an effect. -/
theorem perform_inTransaction {body : Work Unit} {s s' : Service} {outcome : Except Failure Unit}
    (hrun : body.run s.start.1 s.start.2 = (.ended outcome, s'))
    (hended : s'.store.live.get? s.start.1 = none) :
    (inTransaction body).perform s = (.ended outcome, s') := by
  rw [perform]
  simp only [hrun, Service.drop, Store.release_of_ended hended]

/-- What the operation does with its batch, and then it tells the log. -/
theorem run_said {w : Work Unit} {notice : Notice} {tx : TxId} {s s' : Service}
    {outcome : Except Failure Unit} (hrun : w.run tx s = (.ended outcome, s')) :
    ∃ s'', (w >>= fun _ => Work.say notice).run tx s = (.ended outcome, s'') ∧
      s''.store = s'.store := by
  cases outcome with
  | error e => exact ⟨s', Work.run_settle hrun, rfl⟩
  | ok => exact ⟨_, Work.run_settle hrun, rfl⟩

/-- Whatever the accounts are: while nobody else holds one of the rows, every batch ends, it ends
in the way that its transfers, the accounts and the conflicts due call for, these call for no other
way, and no row stays locked. -/
theorem batch_complete (transfers : List Transfer) (s : Service) (hplan : s.plan = .empty)
    (hfree : ∀ id, Mentions transfers id → s.store.locks.holders.get? id = none) :
    ∃ outcome s', (batch transfers).perform s = (.ended outcome, s') ∧
      s.store.BatchEnds transfers outcome s'.store ∧
      (∀ other after, s.store.BatchEnds transfers other after → other = outcome) ∧
      ∀ row, s'.store.locks.holders.get? row = s.store.locks.holders.get? row := by
  rw [batch]
  cases hchecked : Transfer.checkAll transfers with
  | error o =>
      rcases Transfer.checkAll_error_iff.1 hchecked with ⟨before, t, after, hsplit, hvalid, hbad⟩
      have hend : s.store.BatchEnds transfers _ s.store := .invalid hsplit hvalid hbad
      exact ⟨_, s, rfl, hend, fun _ _ h => Store.batchEnds_unique h hend, fun _ => rfl⟩
  | ok =>
      have hvalid := Transfer.checkAll_ok_iff.1 hchecked
      cases transfers with
      | nil =>
          have hend : s.store.BatchEnds [] _ s.store := .nothing rfl
          exact ⟨_, s, rfl, hend, fun _ _ h => Store.batchEnds_unique h hend, fun _ => rfl⟩
      | cons first rest =>
          simp only [List.isEmpty_cons, Bool.false_eq_true, if_false]
          have hne : first :: rest ≠ [] := List.cons_ne_nil first rest
          have hwith : s.store.start.2.With s.start.1 .fresh s.start.2.store :=
            Store.with_start s.store
          have hplan' : s.start.2.plan = .empty := hplan
          -- Once the transaction has ended there is nothing to drop.
          have hend : ∀ {outcome s' accounts due},
              (Work.applyTransfers (first :: rest)).concluded.run s.start.1 s.start.2 =
                (.ended outcome, s') →
              s.store.start.2.Without s.start.1 accounts due s'.store →
              s.store.BatchEnds (first :: rest) outcome s'.store →
              ∃ outcome s', (inTransaction do
                  (Work.applyTransfers (first :: rest)).concluded
                  Work.say (.batchDone (first :: rest).length)).perform s =
                    (.ended outcome, s') ∧
                s.store.BatchEnds (first :: rest) outcome s'.store ∧
                (∀ other after, s.store.BatchEnds (first :: rest) other after →
                  other = outcome) ∧
                ∀ row, s'.store.locks.holders.get? row = s.store.locks.holders.get? row := by
            intro outcome s' accounts due hrun hafter hbatch
            rcases run_said hrun with ⟨s'', hrun', hstore⟩
            refine ⟨outcome, s'', perform_inTransaction hrun' ?_, ?_,
              fun _ _ h => Store.batchEnds_unique h hbatch, ?_⟩
            · rw [hstore]
              exact hafter.ended
            · rw [hstore]
              exact hbatch
            · rw [hstore]
              exact hafter.holders
          rcases rejected_or_accepted s.store.start.2 s.start.1 (t := .fresh) hchecked rfl
            rfl hfree with
            ⟨e, t', hbody, hrejected⟩ | ⟨deltas, t', hbody, hnet, hpending, haccepted⟩
          · rcases Work.run_concluded_error hbody hplan' hwith with ⟨s', hrun, hafter⟩
            exact hend hrun hafter (.rejected hne hvalid hrejected hafter)
          · rcases written_of_accepted hnet haccepted with ⟨accounts, hall, hwritten⟩
            rw [← hpending] at hall
            rcases Work.run_concluded_ok hbody hplan' hwith hall with
              ⟨due, s', hdue, hrun, hafter⟩ | ⟨s', hdue, hrun, hafter⟩
            · exact hend hrun hafter (.conflict hne hvalid haccepted hdue hafter)
            · exact hend hrun hafter (.booked hne hvalid haccepted hdue hwritten hafter)

/-- Two accounts, one of which is to pay the other one, and a conflict that is due. -/
def payment : List Transfer := [⟨1, 2, .ofUInt64 3⟩]

def till : Store := { Store.ofBalances [(1, .ofUInt64 10), (2, .zero)] with conflictsDue := 1 }

theorem batch_complete_payment :
    (Service.ofStore till).plan = .empty ∧
      (∀ id, Mentions payment id → till.locks.holders.get? id = none) ∧
      ∃ outcome s', (batch payment).perform (.ofStore till) = (.ended outcome, s') ∧
        till.BatchEnds payment outcome s'.store ∧
        (∀ other after, till.BatchEnds payment other after → other = outcome) ∧
        ∀ row, s'.store.locks.holders.get? row = till.locks.holders.get? row := by
  have hfree : ∀ id, Mentions payment id → till.locks.holders.get? id = none := fun _ _ => rfl
  exact ⟨rfl, hfree, batch_complete payment (.ofStore till) rfl hfree⟩

end Operation

end RowLedger
