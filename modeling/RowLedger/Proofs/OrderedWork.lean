import RowLedger.Proofs.Contract
import RowLedger.Proofs.LockOrder

/-!
# Ordered transfers under a contract

The body of a batch, call by call. It asks for its rows in ascending order, and
what it asks for later it holds already. When it comes to the commit, each
account of the batch is locked, the balance it was checked with is the one that
it still has, no result was objected to, and the deltas to be applied are those
of the batch without the zeros (`Cleared`). In all other cases nothing is
committed.

The only conflicts that a batch can end with are those that the contract speaks
of.

## Main definitions

* `Locked.Reads`: An account that was locked has the balance that was read.
* `Cleared`: What is known of a batch at its commit.
* `Booked`: How an ordered call ends.

## Theorems

* `meets_lockAll`, `meets_checkResults`, `meets_writeAll`: The three phases.
* `meets_applyTransfers`: The body of a batch.
* `meets_ordered`: An ordered call in a fresh transaction.
-/

namespace RowLedger

/-- An account that was locked has the balance that was read. -/
def Locked.Reads (l : Locked) (accounts : Table AccountId Account) : Prop :=
  ∃ account, accounts.get? l.id = some account ∧ account.balance.add? .zero = some l.balance

/-- What is to happen to the account. -/
def Locked.entry (l : Locked) : AccountId × Decimal := (l.id, l.delta)

/-- An entry that is worth writing. -/
def matters (e : AccountId × Decimal) : Bool := !e.2.isZero

namespace OpenTx

variable {t : OpenTx} {accounts : Table AccountId Account} {row : AccountId}

/-- A query of a new row that is served locks the row and reads its balance. -/
theorem alone_query_new {amount : Decimal} (hnew : row ∉ t.held) (hpending : t.pending = .empty)
    (hserved : (t.alone accounts (.query row)).1 = .served amount) :
    (∃ account, accounts.get? row = some account ∧
        account.balance.add? .zero = some amount) ∧
      (t.alone accounts (.query row)).2 = t.lock row := by
  have hdelta : (t.lock row).delta row = .zero := by
    rw [delta, lock_pending, hpending]
    rfl
  rw [alone, if_neg (show (Request.query row).row ∉ t.held from hnew)] at hserved ⊢
  simp only [Request.row] at hserved ⊢
  cases haccount : accounts.get? row with
  | none => simp [haccount] at hserved
  | some account =>
      simp only [haccount, serve, hdelta] at hserved ⊢
      cases hsum : account.balance.add? .zero with
      | none => simp [hsum] at hserved
      | some sum =>
          simp only [hsum, Reply.served.injEq] at hserved ⊢
          exact ⟨⟨account, rfl, hserved ▸ hsum⟩, trivial⟩

/-- The first update of a row that is held puts its delta down. -/
theorem alone_update_held {delta : Decimal} (hheld : row ∈ t.held)
    (hpending : t.pending.get? row = none) :
    t.alone accounts (.update row delta) =
      (.served delta, { t with pending := t.pending.insert row delta }) := by
  have hzero : t.delta row = .zero := by
    rw [OpenTx.delta, hpending]
    rfl
  rw [alone, if_pos (show (Request.update row delta).row ∈ t.held from hheld), serve, hzero,
    Decimal.add?_zero_left rfl]

end OpenTx

namespace Work

variable {c : Contract} {t : OpenTx} {seen : Table AccountId Account}

/-- How locking accounts ends: with a failure, or with all of them locked and read. -/
inductive LockedAll (c : Contract) (t : OpenTx) (seen : Table AccountId Account)
    (entries : List (AccountId × Decimal)) : Except Failure (List Locked) → Stage → Prop where
  | failed {e : Failure} (hconflict : e.isConflict = true → c.victims) (t' : OpenTx)
      (seen' : Table AccountId Account) : LockedAll c t seen entries (.error e) (.running t' seen')
  | locked {accounts : List Locked} {t' : OpenTx} {seen' : Table AccountId Account}
      (hheld : t'.held = t.held ++ entries.map (·.1)) (hpending : t'.pending = .empty)
      (hentries : accounts.map Locked.entry = entries)
      (hsame : c.locked → ∀ row ∈ t.held, seen'.get? row = seen.get? row)
      (hreads : c.locked → ∀ l ∈ accounts, l.Reads seen') :
      LockedAll c t seen entries (.ok accounts) (.running t' seen')

theorem lockedAll_failed {entries entries' : List (AccountId × Decimal)} {t' : OpenTx}
    {seen' : Table AccountId Account} {e : Failure} {stage : Stage}
    (h : LockedAll c t' seen' entries (.error e) stage) :
    LockedAll c t seen entries' (.error e) stage := by
  cases h with
  | failed hconflict t'' seen'' => exact .failed hconflict t'' seen''

theorem lockedAll_ok {entries : List (AccountId × Decimal)} {accounts : List Locked}
    {stage : Stage} (h : LockedAll c t seen entries (.ok accounts) stage) :
    ∃ t' seen', stage = .running t' seen' ∧ t'.held = t.held ++ entries.map (·.1) ∧
      t'.pending = .empty ∧ accounts.map Locked.entry = entries ∧
      (c.locked → ∀ row ∈ t.held, seen'.get? row = seen.get? row) ∧
      (c.locked → ∀ l ∈ accounts, l.Reads seen') := by
  cases h with
  | @locked _ t' seen' hheld hpending hentries hsame hreads =>
      exact ⟨t', seen', rfl, hheld, hpending, hentries, hsame, hreads⟩

variable (hasks : ∀ t r, RowAbove t.held r.row → c.asks t r)
include hasks

omit hasks in
/-- Accounts that were locked, and then some more. What was read first is still so, since its row
has been under lock. -/
theorem lockedAll_append {first second : List (AccountId × Decimal)} {accounts others : List Locked}
    {t' : OpenTx} {seen' : Table AccountId Account} {stage : Stage}
    (hfirst : LockedAll c t seen first (.ok accounts) (.running t' seen'))
    (hsecond : LockedAll c t' seen' second (.ok others) stage) :
    LockedAll c t seen (first ++ second) (.ok (accounts ++ others)) stage := by
  rcases lockedAll_ok hsecond with ⟨t'', seen'', rfl, hheld', hpending, hentries', hsame', hreads'⟩
  rcases lockedAll_ok hfirst with ⟨_, _, heq, hheld, _, hentries, hsame, hreads⟩
  rw [Stage.running.injEq] at heq
  rcases heq with ⟨rfl, rfl⟩
  have hin : ∀ row, row ∈ t.held ∨ row ∈ first.map (·.1) → row ∈ t'.held := fun row hrow =>
    hheld ▸ List.mem_append.2 hrow
  refine .locked ?_ hpending ?_ ?_ ?_
  · rw [hheld', hheld, List.map_append, List.append_assoc]
  · rw [List.map_append, hentries, hentries']
  · intro hlocked row hrow
    rw [hsame' hlocked row (hin row (Or.inl hrow)), hsame hlocked row hrow]
  · intro hlocked l hl
    rcases List.mem_append.1 hl with hl | hl
    -- Its row is held since it was read, and what is held stays.
    · rcases hreads hlocked l hl with ⟨account, haccount, hbalance⟩
      have hmine : l.id ∈ first.map (·.1) := by
        rw [← hentries, List.map_map]
        exact List.mem_map.2 ⟨l, hl, rfl⟩
      exact ⟨account, (hsame' hlocked l.id (hin l.id (Or.inr hmine))).trans haccount, hbalance⟩
    · exact hreads' hlocked l hl

/-- A new row is locked and read. -/
theorem meets_query {row : AccountId} (delta : Decimal) (hlow : ∀ other ∈ t.held, other < row)
    (hpending : t.pending = .empty) :
    (query row).Meets c (.running t seen) fun outcome stage =>
      LockedAll c t seen [(row, delta)] (outcome.map fun balance => [⟨row, balance, delta⟩])
        stage := by
  have hnew : row ∉ t.held := fun hmem => absurd (hlow row hmem) (Int.lt_irrefl _)
  refine meets_ask (hasks t _ (Or.inr hlow)) ?_ ?_
  · intro accounts amount hsees hserved
    rcases OpenTx.alone_query_new hnew hpending hserved with ⟨hreads, halone⟩
    rw [halone]
    refine .locked rfl hpending rfl hsees.2 ?_
    intro _ l hl
    rw [List.mem_singleton.1 hl]
    exact hreads
  · exact fun e t' accounts hconflict => .failed hconflict t' accounts

/-- Accounts are locked in ascending order. -/
theorem meets_lockAll {entries : List (AccountId × Decimal)}
    (hasc : entries.Pairwise fun a b => a.1 < b.1)
    (habove : ∀ e ∈ entries, ∀ row ∈ t.held, row < e.1) (hpending : t.pending = .empty) :
    (lockAll entries).Meets c (.running t seen) (LockedAll c t seen entries) := by
  induction entries generalizing t seen with
  | nil =>
      refine .locked ?_ hpending rfl (fun _ _ _ => rfl) ?_
      · rw [List.map_nil, List.append_nil]
      · simp
  | cons e rest ih =>
      rcases List.pairwise_cons.1 hasc with ⟨hfirst, hasc'⟩
      have hlow := habove e List.mem_cons_self
      rw [lockAll]
      refine meets_bind (meets_query hasks e.2 hlow hpending) ?_ fun _ _ h => lockedAll_failed h
      intro balance stage hlocked
      rcases lockedAll_ok hlocked with ⟨t', seen', rfl, hheld, hpending', _⟩
      -- The row that was locked last is the highest one.
      have habove' : ∀ e' ∈ rest, ∀ row ∈ t'.held, row < e'.1 := by
        intro e' he' row hrow
        rw [hheld, List.mem_append, List.map_singleton, List.mem_singleton] at hrow
        rcases hrow with hrow | rfl
        · exact habove e' (List.mem_cons_of_mem _ he') row hrow
        · exact hfirst e' he'
      refine meets_bind (ih hasc' habove' hpending') ?_ fun _ _ h => lockedAll_failed h
      intro others stage hothers
      exact lockedAll_append hlocked hothers

/-- How checking the results ends: with a failure, or without an objection. -/
inductive CheckedAll (accounts : List Locked) (stage : Stage) :
    Except Failure Unit → Stage → Prop where
  | failed {e : Failure} (hconflict : e.isConflict = false) :
      CheckedAll accounts stage (.error e) stage
  | allowed (hallowed : ∀ l ∈ accounts, l.objection? = none) :
      CheckedAll accounts stage (.ok ()) stage

omit hasks in
/-- The results are checked without a call. -/
theorem meets_checkResults (accounts : List Locked) (stage : Stage) :
    (checkResults accounts).Meets c stage (CheckedAll accounts stage) := by
  rw [checkResults]
  cases hfind : accounts.findSome? Locked.objection? with
  | none => exact .allowed (List.findSome?_eq_none_iff.1 hfind)
  | some objection =>
      rcases List.exists_of_findSome?_eq_some hfind with ⟨l, _, hl⟩
      refine CheckedAll.failed (e := objection.2) ?_
      rw [Locked.objection?] at hl
      split at hl
      · rw [Option.some.injEq] at hl
        rw [← hl]
        rfl
      · split at hl
        · rw [Option.some.injEq] at hl
          rw [← hl]
          rfl
        · simp at hl

/-- How writing ends: with a failure, or with all deltas put down that matter. -/
inductive WrittenAll (c : Contract) (t : OpenTx) (seen : Table AccountId Account)
    (accounts : List Locked) : Except Failure Unit → Stage → Prop where
  | failed {e : Failure} (hconflict : e.isConflict = true → c.victims) (t' : OpenTx)
      (seen' : Table AccountId Account) :
      WrittenAll c t seen accounts (.error e) (.running t' seen')
  | written {t' : OpenTx} {seen' : Table AccountId Account} (hheld : t'.held = t.held)
      (hpending : t'.pending.entries =
        t.pending.entries ++ (accounts.map Locked.entry).filter matters)
      (hsame : c.locked → ∀ row ∈ t.held, seen'.get? row = seen.get? row) :
      WrittenAll c t seen accounts (.ok ()) (.running t' seen')

/-- The first update of a row that is held and above all others that were written. -/
theorem meets_update {row : AccountId} {delta : Decimal} {post : Except Failure Unit → Stage → Prop}
    (hheld : row ∈ t.held) (hlow : ∀ e ∈ t.pending.entries, e.1 < row)
    (hserved : ∀ t' accounts, c.Sees t seen accounts → t'.held = t.held →
      t'.pending.entries = t.pending.entries ++ [(row, delta)] →
      post (.ok ()) (.running t' accounts))
    (hrefused : ∀ e t' accounts, (e.isConflict = true → c.victims) →
      post (.error e) (.running t' accounts)) :
    (update row delta).Meets c (.running t seen) post := by
  have hpending : t.pending.get? row = none := by
    cases hget : t.pending.get? row with
    | none => rfl
    | some sum =>
        have := hlow (row, sum) ((Table.mem_entries_iff _ _ _).2 hget)
        exact absurd this (Int.lt_irrefl row)
  have hasked : (ask (.update row delta)).Meets c (.running t seen) fun outcome stage =>
      post (outcome.map fun _ => ()) stage := by
    refine meets_ask (hasks t _ (Or.inl hheld)) ?_ ?_
    · intro accounts amount hsees _
      rw [OpenTx.alone_update_held hheld hpending]
      exact hserved _ accounts hsees rfl (Table.place_last delta hlow)
    · exact fun e t' accounts hconflict => hrefused e t' accounts hconflict
  exact meets_bind hasked (fun _ _ hpost => hpost) fun _ _ hpost => hpost

omit hasks in
/-- What was written, and then some more. -/
theorem writtenAll_append {first second : List Locked} {t' : OpenTx}
    {seen' : Table AccountId Account} {outcome : Except Failure Unit} {stage : Stage}
    (hfirst : WrittenAll c t seen first (.ok ()) (.running t' seen'))
    (hsecond : WrittenAll c t' seen' second outcome stage) :
    WrittenAll c t seen (first ++ second) outcome stage := by
  cases hfirst with
  | written hheld hpending hsame =>
      cases hsecond with
      | failed hconflict t'' seen'' => exact .failed hconflict t'' seen''
      | written hheld' hpending' hsame' =>
          refine .written (hheld'.trans hheld) ?_ ?_
          · rw [hpending', hpending, List.map_append, List.filter_append, List.append_assoc]
          · intro hlocked row hrow
            rw [hsame' hlocked row (hheld ▸ hrow), hsame hlocked row hrow]

omit hasks in
theorem matters_entry {l : Locked} {zero : Bool} (h : l.delta.isZero = zero) :
    matters l.entry = !zero := by
  rw [matters, Locked.entry, h]

-- Each write is the first one of its row, and the rows come in ascending order, so each delta is
-- put at the end of those that are pending. That makes the pending deltas a list that grows with
-- the induction.
/-- What is written is held already, and each row is written once. -/
theorem meets_writeAll {accounts : List Locked}
    (hasc : (accounts.map Locked.entry).Pairwise fun a b => a.1 < b.1)
    (hheld : ∀ l ∈ accounts, l.id ∈ t.held)
    (hlow : ∀ e ∈ t.pending.entries, ∀ l ∈ accounts, e.1 < l.id) :
    (writeAll accounts).Meets c (.running t seen) (WrittenAll c t seen accounts) := by
  induction accounts generalizing t seen with
  | nil =>
      refine .written rfl ?_ fun _ _ _ => rfl
      rw [List.map_nil, List.filter_nil, List.append_nil]
  | cons l rest ih =>
      rcases List.pairwise_cons.1 hasc with ⟨hfirst, hasc'⟩
      have hheld' : ∀ l' ∈ rest, l'.id ∈ t.held := fun l' hl' =>
        hheld l' (List.mem_cons_of_mem _ hl')
      have hlow' : ∀ e ∈ t.pending.entries, ∀ l' ∈ rest, e.1 < l'.id := fun e he l' hl' =>
        hlow e he l' (List.mem_cons_of_mem _ hl')
      rw [writeAll]
      cases hzero : l.delta.isZero with
      | true =>
          have hskip : WrittenAll c t seen [l] (.ok ()) (.running t seen) := by
            refine .written rfl ?_ fun _ _ _ => rfl
            simp [matters_entry hzero]
          rw [if_pos rfl]
          exact meets_mono (ih hasc' hheld' hlow') fun _ _ hrest => writtenAll_append hskip hrest
      | false =>
          have hkeep : [l.entry].filter matters = [l.entry] := by simp [matters_entry hzero]
          rw [if_neg Bool.false_ne_true]
          have hupdate : (update l.id l.delta).Meets c (.running t seen)
              (WrittenAll c t seen [l]) := by
            refine meets_update hasks (hheld l List.mem_cons_self)
              (fun e he => hlow e he l List.mem_cons_self) ?_ ?_
            · intro t' accounts hsees hsame hpending
              refine .written hsame ?_ hsees.2
              rw [hpending, List.map_singleton, hkeep]
              rfl
            · exact fun e t' accounts hconflict => .failed hconflict t' accounts
          refine meets_bind hupdate ?_ ?_
          · intro _ stage hone
            cases hone with
            | @written t' seen' hsame hpending hseen =>
                have hlow'' : ∀ e ∈ t'.pending.entries, ∀ l' ∈ rest, e.1 < l'.id := by
                  intro e he l' hl'
                  rw [hpending, List.map_singleton, hkeep, List.mem_append,
                    List.mem_singleton] at he
                  rcases he with he | rfl
                  · exact hlow' e he l' hl'
                  · exact hfirst l'.entry (List.mem_map.2 ⟨l', hl', rfl⟩)
                refine meets_mono (ih hasc' (hsame ▸ hheld') hlow'') ?_
                intro _ _ hrest
                exact writtenAll_append (.written hsame hpending hseen) hrest
          · intro e stage hone
            cases hone with
            | failed hconflict t' seen' => exact .failed hconflict t' seen'

/-- How the body of a batch ends: with a failure, or ready to be committed. -/
inductive Readied (c : Contract) (batch : List Transfer) : Except Failure Unit → Stage → Prop where
  | failed {e : Failure} (hconflict : e.isConflict = true → c.victims) (t' : OpenTx)
      (seen' : Table AccountId Account) : Readied c batch (.error e) (.running t' seen')
  | ready {deltas : Deltas} {accounts : List Locked} {t' : OpenTx}
      {seen' : Table AccountId Account} (hchecked : Transfer.checkAll batch = .ok ())
      (hnet : netDeltas batch = .ok deltas) (hentries : accounts.map Locked.entry = deltas.entries)
      (hallowed : ∀ l ∈ accounts, l.objection? = none) (hheld : ∀ l ∈ accounts, l.id ∈ t'.held)
      (hreads : c.locked → ∀ l ∈ accounts, l.Reads seen')
      (hpending : t'.pending.entries = deltas.entries.filter matters) :
      Readied c batch (.ok ()) (.running t' seen')

omit hasks in
theorem isConflict_adjust {d : Deltas} {id : AccountId} {f : Decimal → Option Decimal}
    {e : Failure} (h : d.adjust id f = .error e) : e.isConflict = false := by
  rw [Deltas.adjust] at h
  split at h
  · rw [Except.error.injEq] at h
    rw [← h]
    rfl
  · simp at h

omit hasks in
/-- Net deltas that do not exist are no conflict. -/
theorem isConflict_moveAll {d : Deltas} {batch : List Transfer} {e : Failure}
    (h : d.moveAll batch = .error e) : e.isConflict = false := by
  induction batch generalizing d with
  | nil => simp [Deltas.moveAll] at h
  | cons first rest ih =>
      rw [Deltas.moveAll] at h
      cases hmove : d.move first with
      | ok d' =>
          rw [hmove] at h
          exact ih h
      | error e' =>
          rw [hmove, Except.error.injEq] at h
          rw [← h]
          rw [Deltas.move] at hmove
          split at hmove
          · rename_i hsource
            rw [Except.error.injEq] at hmove
            exact hmove ▸ isConflict_adjust hsource
          · exact isConflict_adjust hmove

-- The three phases in order. The second one makes no call, and the third one asks only for rows
-- that the first one has locked.
/-- Deltas are locked, checked and written. -/
theorem meets_applyDeltas {batch : List Transfer} {deltas : Deltas}
    (hchecked : Transfer.checkAll batch = .ok ()) (hnet : netDeltas batch = .ok deltas) :
    (applyDeltas deltas).Meets c (.running .fresh seen) (Readied c batch) := by
  have hlock : (lockAll deltas.entries).Meets c (.running .fresh seen)
      (LockedAll c .fresh seen deltas.entries) :=
    meets_lockAll hasks deltas.ascending (by simp [OpenTx.fresh]) rfl
  refine meets_bind hlock ?_ ?_
  · intro accounts stage hlocked
    rcases lockedAll_ok hlocked with ⟨t, seen', rfl, hheld, hpending, hentries, _, hreads⟩
    refine meets_bind (meets_checkResults accounts (.running t seen')) ?_ ?_
    · intro _ stage hok
      cases hok with
      | allowed hallowed =>
          have hmem : ∀ l ∈ accounts, l.id ∈ t.held := by
            intro l hl
            rw [hheld, ← hentries, List.map_map]
            exact List.mem_append_right _ (List.mem_map.2 ⟨l, hl, rfl⟩)
          have hwrite : (writeAll accounts).Meets c (.running t seen')
              (WrittenAll c t seen' accounts) :=
            meets_writeAll hasks (hentries ▸ deltas.ascending) hmem
              (by simp [hpending, Table.empty])
          refine meets_mono hwrite ?_
          intro outcome stage hwritten
          cases hwritten with
          | failed hconflict t' seen'' => exact .failed hconflict t' seen''
          | written hsame hwhat hseen =>
              refine .ready hchecked hnet hentries hallowed (hsame ▸ hmem) ?_ ?_
              · intro hfixed l hl
                rcases hreads hfixed l hl with ⟨account, haccount, hbalance⟩
                exact ⟨account, (hseen hfixed l.id (hmem l hl)).trans haccount, hbalance⟩
              · rw [hwhat, hpending, hentries]
                rfl
    · intro e stage hfailed
      cases hfailed with
      | failed hconflict => exact .failed (by simp [hconflict]) _ _
  · intro e stage hfailed
    cases hfailed with
    | failed hconflict t' seen' => exact .failed hconflict t' seen'

/-- The body of a batch in a fresh transaction. -/
theorem meets_applyTransfers (batch : List Transfer) :
    (applyTransfers batch).Meets c (.running .fresh seen) (Readied c batch) := by
  rw [applyTransfers]
  cases hchecked : Transfer.checkAll batch with
  | error o => exact .failed (by simp [Failure.ofObjection, Failure.isConflict]) _ _
  | ok =>
      cases hnet : netDeltas batch with
      | error e =>
          refine .failed ?_ _ _
          rw [isConflict_moveAll hnet]
          simp
      | ok deltas => exact meets_applyDeltas hasks hchecked hnet

end Work

/-- What is known of a batch at its commit. The deltas are those of the batch, each account was
read and its result not objected to, and what is applied is the deltas that matter. -/
structure Cleared (c : Contract) (batch : List Transfer)
    (before after : Table AccountId Account) (deltas : Deltas) (accounts : List Locked) : Prop where
  checked : Transfer.checkAll batch = .ok ()
  net : netDeltas batch = .ok deltas
  entries : accounts.map Locked.entry = deltas.entries
  allowed : ∀ l ∈ accounts, l.objection? = none
  reads : c.locked → ∀ l ∈ accounts, l.Reads before
  applied : Store.applyAll before (deltas.entries.filter matters) = .ok after

/-- How an ordered call ends: with a failure and without an effect, or with its batch cleared and
committed. -/
inductive Booked (c : Contract) (batch : List Transfer) : Except Failure Unit → Stage → Prop where
  | failed {e : Failure} (hconflict : e.isConflict = true → c.victims ∨ c.conflicts) :
      Booked c batch (.error e) (.ended none)
  | done {before after : Table AccountId Account} {deltas : Deltas} {accounts : List Locked}
      (hbefore : c.accounts before) (hcleared : Cleared c batch before after deltas accounts) :
      Booked c batch (.ok ()) (.ended (some (before, after)))

section Calls

variable {c : Contract} (hasks : ∀ t r, RowAbove t.held r.row → c.asks t r) {batch : List Transfer}
  (hkeeps : ∀ before after deltas accounts, c.accounts before →
    Cleared c batch before after deltas accounts → c.accounts after)
include hasks hkeeps

theorem meets_batch (seen : Table AccountId Account) :
    (Work.applyTransfers batch).concluded.Meets c (.running .fresh seen) (Booked c batch) := by
  refine Work.meets_concluded (Work.meets_applyTransfers hasks batch) ?_ ?_ ?_
  · intro _ stage hready
    -- From the last request to the commit the rows stay under lock, so what was read is still so.
    cases hready with
    | @ready deltas locked t' seen' hchecked hnet hentries hallowed hheld hreads hpending =>
        refine ⟨t', seen', rfl, ?_⟩
        intro before after hsees hall
        have hcleared : Cleared c batch before after deltas locked := by
          refine ⟨hchecked, hnet, hentries, hallowed, ?_, hpending ▸ hall⟩
          intro hfixed l hl
          rcases hreads hfixed l hl with ⟨account, haccount, hbalance⟩
          exact ⟨account, (hsees.2 hfixed l.id (hheld l hl)).trans haccount, hbalance⟩
        exact ⟨hkeeps before after deltas locked hsees.1 hcleared, .done hsees.1 hcleared⟩
  · intro e stage hfailed
    cases hfailed with
    | failed hconflict t' seen' => exact ⟨t', seen', rfl, .failed fun he => Or.inl (hconflict he)⟩
  · exact fun e hconflict => .failed fun he => Or.inr (hconflict he)

/-- To tell the log at the end changes nothing. -/
theorem meets_batch_said (seen : Table AccountId Account) (notice : Notice) :
    (do (Work.applyTransfers batch).concluded; Work.say notice : Work Unit).Meets c
      (.running .fresh seen) (Booked c batch) := by
  refine Work.meets_bind (meets_batch hasks hkeeps seen) ?_ fun _ _ hbooked => hbooked
  intro _ stage hbooked
  exact hbooked

end Calls

/-- An ordered call in a fresh transaction. -/
theorem meets_ordered {c : Contract} (hasks : ∀ t r, RowAbove t.held r.row → c.asks t r)
    {call : OrderedCall} (hkeeps : ∀ before after deltas accounts, c.accounts before →
      Cleared c call.transfers before after deltas accounts → c.accounts after)
    {body : Work Unit} (hbody : call.operation = .inTransaction body)
    (seen : Table AccountId Account) :
    body.Meets c (.running .fresh seen) (Booked c call.transfers) := by
  cases call with
  | transfer t =>
      rw [OrderedCall.operation, Operation.transfer] at hbody
      split at hbody
      · simp at hbody
      · rw [Operation.inTransaction.injEq] at hbody
        rw [← hbody]
        exact meets_batch_said hasks hkeeps seen _
  | batch transfers =>
      rw [OrderedCall.operation, Operation.batch] at hbody
      split at hbody
      · simp at hbody
      · split at hbody
        · simp at hbody
        · rw [Operation.inTransaction.injEq] at hbody
          rw [← hbody]
          exact meets_batch_said hasks hkeeps seen _
  | transferAttempt t =>
      rw [OrderedCall.operation, Operation.inTransaction.injEq] at hbody
      rw [← hbody]
      exact meets_batch hasks hkeeps seen
  | batchAttempt transfers =>
      rw [OrderedCall.operation, Operation.inTransaction.injEq] at hbody
      rw [← hbody]
      exact meets_batch hasks hkeeps seen

/-- An ordered call that needs no transaction has nothing to do or is refused. -/
theorem settled_ordered {call : OrderedCall} {outcome : Except Failure Unit}
    (hsettled : call.operation = .settled outcome) :
    (outcome = .ok () ∧ call.transfers = []) ∨
      ∃ o, outcome = .error (.ofObjection o) := by
  cases call with
  | transfer t =>
      rw [OrderedCall.operation, Operation.transfer] at hsettled
      split at hsettled
      · rename_i o _
        rw [Operation.settled.injEq] at hsettled
        exact Or.inr ⟨o, hsettled.symm⟩
      · simp at hsettled
  | batch transfers =>
      rw [OrderedCall.operation, Operation.batch] at hsettled
      split at hsettled
      · rename_i o _
        rw [Operation.settled.injEq] at hsettled
        exact Or.inr ⟨o, hsettled.symm⟩
      · split at hsettled
        · rename_i hempty
          rw [Operation.settled.injEq] at hsettled
          exact Or.inl ⟨hsettled.symm, List.isEmpty_iff.1 hempty⟩
        · simp at hsettled
  | transferAttempt t => simp [OrderedCall.operation] at hsettled
  | batchAttempt transfers => simp [OrderedCall.operation] at hsettled

end RowLedger
