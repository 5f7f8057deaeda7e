import RowLedger.Proofs.BatchOutcome
import RowLedger.Proofs.Conservation
import RowLedger.Proofs.Walks

/-!
# Batches that cannot fail

A contract tells what may go wrong for a batch, and if nothing may, the batch
succeeds. There are no victims and no conflicts, every account that it asks for
is there whenever it asks, and whatever the accounts have become, they bear
what the batch does to them. Then every call is served, there is no objection,
and the commit goes through.

Accounts with exact sums bear a batch if none of them would be overdrawn: the
exact results sum up to the total before, so none of them is too large either.

## Main definitions

* `Affords`: No account of a batch is missing, and none is overdrawn.
* `Contract.assured`: A contract under which nothing can go wrong.
* `Work.Passed`: How the body of a batch ends that cannot fail.

## Theorems

* `accepted_of_affords`: There is no objection to a batch that is afforded.
* `meets_and`, `meets_knows`: What is known of work under a contract adds up.
* `served_lockAll`, `served_writeAll`, `served_applyTransfers`: Every call is
  served.
* `exists_cleared`: The commit goes through.
-/

namespace RowLedger

/-- No account of a batch is missing, and none is overdrawn by it. -/
structure Affords (accounts : Table AccountId Account) (batch : List Transfer) : Prop where
  there : ∀ id, Mentions batch id → (accounts.get? id).isSome = true
  covered : ∀ id, 0 ≤ unitsOf accounts id + (inflow batch id - outflow batch id)

/-- There is no objection to a batch that is afforded, if sums are exact. -/
theorem accepted_of_affords {s : Nat} {total : Int} {accounts : Table AccountId Account}
    {batch : List Transfer} (hbalanced : Balanced s total accounts)
    (htotal : total < Decimal.capacity s) (hmeasured : Measured s batch)
    (hchecked : Transfer.checkAll batch = .ok ()) (haffords : Affords accounts batch) :
    Accepted accounts batch := by
  rcases netDeltas_exact hmeasured hchecked with ⟨deltas, hnet, hexact⟩
  refine ⟨sums_of_netDeltas hnet, ?_⟩
  intro id hmentioned
  rcases Option.isSome_iff_exists.1 (haffords.there id hmentioned) with ⟨account, haccount⟩
  have hnonneg := haffords.covered id
  have hle := le_total_of_nonneg hbalanced haffords.covered id
  rw [unitsOf_of_some haccount] at hnonneg hle
  have hsum := Decimal.add?_exact (s := s) (a := account.balance) (b := deltas.current id)
    (hbalanced.multiple id account haccount)
    (by rw [hexact]; exact dvd_flow hmeasured id)
    (by rw [hexact]; omega)
  rcases hsum with ⟨next, hnext, hunits⟩
  refine ⟨account, _, next, haccount, (netDeltas_ok hnet id).1, hnext, ?_⟩
  rw [← Bool.not_eq_true, Decimal.isNegative_iff, hunits, hexact]
  omega

/-- Nothing is objected to an account that bears its batch and was read. -/
theorem allowed_of_accepted {accounts : Table AccountId Account} {batch : List Transfer}
    {deltas : Deltas} {l : Locked} (haccepted : Accepted accounts batch)
    (hnet : netDeltas batch = .ok deltas) (hentry : l.entry ∈ deltas.entries)
    (hreads : l.Reads accounts) : l.objection? = none := by
  rcases mem_netDeltas hnet hentry with ⟨hmentioned, hsum⟩
  rcases haccepted.bears _ hmentioned with
    ⟨account, delta, next, haccount, hdelta, hnext, hnegative⟩
  rcases hreads with ⟨account', haccount', hread⟩
  rw [hsum, Option.some.injEq] at hdelta
  change accounts.get? l.id = some account at haccount
  rw [haccount, Option.some.injEq] at haccount'
  rw [← haccount', Decimal.add?_zero, Option.some.injEq] at hread
  have hdelta' : l.delta = delta := hdelta
  rw [Locked.objection?, ← hread, Decimal.add?_shown, hdelta', hnext]
  simp only [hnegative, Bool.false_eq_true, ↓reduceIte]

/-- Nothing can go wrong under this contract for a batch that is afforded. -/
def Contract.assured (s : Nat) (total : Int) (batch : List Transfer) : Contract where
  accounts := fun accounts => Balanced s total accounts ∧ Affords accounts batch
  locked := True
  asks := fun t r => RowAbove t.held r.row
  victims := False
  conflicts := False

/-- What a contract knows of the accounts is true of those of the last request. -/
def Contract.Knows (c : Contract) : Stage → Prop
  | .running _ seen => c.accounts seen
  | .ended _ => True

namespace Work

variable {α : Type} {c : Contract} {t : OpenTx} {seen : Table AccountId Account}

/-- Two things that are known of the end are known together. -/
theorem meets_and {w : Work α} {stage : Stage} {post post' : Except Failure α → Stage → Prop}
    (h : w.Meets c stage post) (h' : w.Meets c stage post') :
    w.Meets c stage fun outcome stage => post outcome stage ∧ post' outcome stage := by
  induction w generalizing stage with
  | done outcome => exact ⟨h, h'⟩
  | request r next ih =>
      cases stage with
      | running t seen =>
          refine ⟨h.1, fun accounts hsees => ?_⟩
          rcases h.2 accounts hsees with ⟨hanswer, hvictim⟩
          rcases h'.2 accounts hsees with ⟨hanswer', hvictim'⟩
          exact ⟨fun answer ha => ih answer (hanswer answer ha) (hanswer' answer ha),
            fun hv fault hf => ih _ (hvictim hv fault hf) (hvictim' hv fault hf)⟩
      | ended change => exact ih _ h h'
  | commit next ih =>
      cases stage with
      | running t seen =>
          intro accounts hsees
          rcases h accounts hsees with ⟨hconflict, hrejected, happlied⟩
          rcases h' accounts hsees with ⟨hconflict', hrejected', happlied'⟩
          refine ⟨fun hc fault hf => ih _ (hconflict hc fault hf) (hconflict' hc fault hf),
            fun reason hall => ih _ (hrejected reason hall) (hrejected' reason hall), ?_⟩
          intro accounts' hall
          exact ⟨(happlied accounts' hall).1,
            ih _ (happlied accounts' hall).2 (happlied' accounts' hall).2⟩
      | ended change => exact ih _ h h'
  | rollback next ih =>
      cases stage with
      | running t seen => exact ih _ h h'
      | ended change => exact ih _ h h'
  | pause millis next ih => exact ih h h'
  | tell notice next ih => exact ih h h'
  | note n next ih => exact ih h h'
  | crash => trivial

/-- Work under a contract has only seen accounts that the contract knows. -/
theorem meets_knows {w : Work α} {stage : Stage} {post : Except Failure α → Stage → Prop}
    (hstage : c.Knows stage) (h : w.Meets c stage post) :
    w.Meets c stage fun _ stage => c.Knows stage := by
  induction w generalizing stage with
  | done outcome => exact hstage
  | request r next ih =>
      cases stage with
      | running t seen =>
          refine ⟨h.1, fun accounts hsees => ?_⟩
          rcases h.2 accounts hsees with ⟨hanswer, hvictim⟩
          exact ⟨fun answer ha => ih answer hsees.1 (hanswer answer ha),
            fun hv fault hf => ih _ hsees.1 (hvictim hv fault hf)⟩
      | ended change => exact ih _ trivial h
  | commit next ih =>
      cases stage with
      | running t seen =>
          intro accounts hsees
          rcases h accounts hsees with ⟨hconflict, hrejected, happlied⟩
          refine ⟨fun hc fault hf => ih _ trivial (hconflict hc fault hf),
            fun reason hall => ih _ trivial (hrejected reason hall), ?_⟩
          intro accounts' hall
          exact ⟨(happlied accounts' hall).1, ih _ trivial (happlied accounts' hall).2⟩
      | ended change => exact ih _ trivial h
  | rollback next ih =>
      cases stage with
      | running t seen => exact ih _ trivial h
      | ended change => exact ih _ trivial h
  | pause millis next ih => exact ih hstage h
  | tell notice next ih => exact ih hstage h
  | note n next ih => exact ih hstage h
  | crash => trivial

section Served

variable (hasks : ∀ t r, RowAbove t.held r.row → c.asks t r) (hno : ¬ c.victims)
include hasks hno

/-- A request that is served whatever the accounts are. -/
theorem served_ask {r : Request} {t' : OpenTx} (habove : RowAbove t.held r.row)
    (hserved : ∀ accounts, c.accounts accounts →
      ∃ amount, t.alone accounts r = (.served amount, t')) :
    (ask r).Meets c (.running t seen) fun outcome stage =>
      (∃ amount, outcome = .ok amount) ∧ ∃ accounts, stage = .running t' accounts := by
  refine ⟨hasks t r habove, fun accounts hsees => ⟨?_, fun hvictims => absurd hvictims hno⟩⟩
  intro answer hanswer
  rcases hserved accounts hsees.1 with ⟨amount, halone⟩
  rw [halone, Reply.toAnswer, Option.some.injEq] at hanswer
  rw [← hanswer, halone]
  exact ⟨⟨amount, rfl⟩, accounts, rfl⟩

/-- A new row is locked and read. -/
theorem served_query {row : AccountId} (hlow : ∀ other ∈ t.held, other < row)
    (hpending : t.pending = .empty)
    (hthere : ∀ accounts, c.accounts accounts → (accounts.get? row).isSome = true) :
    (query row).Meets c (.running t seen) fun outcome stage =>
      (∃ amount, outcome = .ok amount) ∧ ∃ accounts, stage = .running (t.lock row) accounts := by
  have hnew : row ∉ t.held := fun hmem => absurd (hlow row hmem) (Int.lt_irrefl _)
  refine served_ask hasks hno (Or.inr hlow) fun accounts haccounts => ?_
  rcases Option.isSome_iff_exists.1 (hthere accounts haccounts) with ⟨account, haccount⟩
  refine ⟨account.balance.shown, ?_⟩
  have hdelta : (t.lock row).delta row = .zero := by
    rw [OpenTx.delta, OpenTx.lock_pending, hpending]
    rfl
  rw [OpenTx.alone, if_neg (show (Request.query row).row ∉ t.held from hnew)]
  simp only [Request.row, haccount, OpenTx.serve, hdelta, Decimal.add?_zero]

/-- All rows are locked. -/
theorem served_lockAll {entries : List (AccountId × Decimal)}
    (hasc : entries.Pairwise fun a b => a.1 < b.1)
    (habove : ∀ e ∈ entries, ∀ row ∈ t.held, row < e.1) (hpending : t.pending = .empty)
    (hthere : ∀ accounts, c.accounts accounts → ∀ e ∈ entries,
      (accounts.get? e.1).isSome = true) :
    (lockAll entries).Meets c (.running t seen) fun outcome _ =>
      ∃ accounts, outcome = .ok accounts := by
  induction entries generalizing t seen with
  | nil => exact ⟨[], rfl⟩
  | cons e rest ih =>
      rcases List.pairwise_cons.1 hasc with ⟨hfirst, hasc'⟩
      rw [lockAll]
      refine meets_bind (served_query hasks hno (habove e List.mem_cons_self) hpending
        fun accounts haccounts => hthere accounts haccounts e List.mem_cons_self) ?_ (by simp)
      rintro balance _ ⟨_, seen', rfl⟩
      have habove' : ∀ e' ∈ rest, ∀ row ∈ (t.lock e.1).held, row < e'.1 := by
        intro e' he' row hrow
        rw [OpenTx.lock_held, List.mem_append, List.mem_singleton] at hrow
        rcases hrow with hrow | rfl
        · exact habove e' (List.mem_cons_of_mem _ he') row hrow
        · exact hfirst e' he'
      refine meets_bind (ih hasc' habove' hpending fun accounts haccounts e' he' =>
        hthere accounts haccounts e' (List.mem_cons_of_mem _ he')) ?_ (by simp)
      rintro others stage _
      exact ⟨_, rfl⟩

/-- The first update of a row that is held is served. -/
theorem served_update {row : AccountId} {delta : Decimal} (hheld : row ∈ t.held)
    (hpending : t.pending.get? row = none) :
    (update row delta).Meets c (.running t seen) fun outcome stage =>
      outcome = .ok () ∧ ∃ accounts,
        stage = .running { t with pending := t.pending.insert row delta } accounts := by
  refine meets_bind (served_ask hasks hno (Or.inl hheld) fun accounts _ =>
    ⟨delta, OpenTx.alone_update_held hheld hpending⟩) ?_ (by simp)
  rintro amount _ ⟨_, seen', rfl⟩
  exact ⟨rfl, seen', rfl⟩

/-- All deltas are put down. -/
theorem served_writeAll {accounts : List Locked}
    (hasc : (accounts.map Locked.entry).Pairwise fun a b => a.1 < b.1)
    (hheld : ∀ l ∈ accounts, l.id ∈ t.held)
    (hpending : ∀ l ∈ accounts, t.pending.get? l.id = none) :
    (writeAll accounts).Meets c (.running t seen) fun outcome _ => outcome = .ok () := by
  induction accounts generalizing t seen with
  | nil => exact rfl
  | cons l rest ih =>
      rcases List.pairwise_cons.1 hasc with ⟨hfirst, hasc'⟩
      have hheld' : ∀ l' ∈ rest, l'.id ∈ t.held := fun l' hl' =>
        hheld l' (List.mem_cons_of_mem _ hl')
      have hpending' : ∀ l' ∈ rest, t.pending.get? l'.id = none := fun l' hl' =>
        hpending l' (List.mem_cons_of_mem _ hl')
      rw [writeAll]
      split
      · exact ih hasc' hheld' hpending'
      · refine meets_bind (served_update hasks hno (hheld l List.mem_cons_self)
          (hpending l List.mem_cons_self)) ?_ (by simp)
        rintro _ _ ⟨_, seen', rfl⟩
        refine ih hasc' hheld' fun l' hl' => ?_
        have hne : l.id ≠ l'.id :=
          Int.ne_of_lt (hfirst l'.entry (List.mem_map.2 ⟨l', hl', rfl⟩))
        rw [Table.get?_insert, if_neg hne]
        exact hpending' l' hl'

-- What each phase leaves to the next one is known from its contract; that it succeeds is new.
/-- The body of a batch succeeds, if it is accepted whatever the accounts have become. -/
theorem served_applyTransfers {batch : List Transfer} {deltas : Deltas} (hlocked : c.locked)
    (hchecked : Transfer.checkAll batch = .ok ()) (hnet : netDeltas batch = .ok deltas)
    (haccepted : ∀ accounts, c.accounts accounts → Accepted accounts batch)
    (hseen : c.accounts seen) :
    (applyTransfers batch).Meets c (.running .fresh seen) fun outcome _ => outcome = .ok () := by
  rw [applyTransfers, hchecked]
  simp only [hnet]
  have hlock : (lockAll deltas.entries).Meets c (.running .fresh seen)
      (LockedAll c .fresh seen deltas.entries) :=
    meets_lockAll hasks deltas.ascending (by simp [OpenTx.fresh]) rfl
  have hserved : (lockAll deltas.entries).Meets c (.running .fresh seen) fun outcome _ =>
      ∃ accounts, outcome = .ok accounts := by
    refine served_lockAll hasks hno deltas.ascending (by simp [OpenTx.fresh]) rfl ?_
    intro accounts haccounts e he
    rcases (haccepted accounts haccounts).bears e.1 (mem_netDeltas hnet he).1 with
      ⟨account, _, _, haccount, _⟩
    rw [haccount]
    rfl
  refine meets_bind (meets_and (meets_and hlock hserved) (meets_knows hseen hlock)) ?_
    fun e stage h => by simp at h
  rintro accounts stage ⟨⟨hall, _⟩, hknows⟩
  rcases lockedAll_ok hall with ⟨t, seen', rfl, hheld, hpending, hentries, _, hreads⟩
  have hallowed : accounts.findSome? Locked.objection? = none := by
    rw [List.findSome?_eq_none_iff]
    intro l hl
    exact allowed_of_accepted (haccepted seen' hknows) hnet
      (hentries ▸ List.mem_map.2 ⟨l, hl, rfl⟩) (hreads hlocked l hl)
  rw [checkResults, hallowed]
  refine served_writeAll hasks hno (hentries ▸ deltas.ascending) ?_ ?_
  · intro l hl
    rw [hheld, ← hentries, List.map_map]
    exact List.mem_append_right _ (List.mem_map.2 ⟨l, hl, rfl⟩)
  · intro l _
    rw [hpending]
    rfl

end Served

/-- How the body of a batch ends that cannot fail. -/
def Passed (c : Contract) (batch : List Transfer) (outcome : Except Failure Unit)
    (stage : Stage) : Prop :=
  outcome = .ok () ∧ Readied c batch outcome stage

section Assured

variable {scale : Nat} {total : Int} {batch : List Transfer}
  (htotal : total < Decimal.capacity scale) (hmeasured : Measured scale batch)
  (hchecked : Transfer.checkAll batch = .ok ())
include htotal hmeasured hchecked

/-- The body of a batch succeeds under a contract under which nothing can go wrong. -/
theorem passed_applyTransfers (hseen : (Contract.assured scale total batch).accounts seen) :
    (applyTransfers batch).Meets (.assured scale total batch) (.running .fresh seen)
      (Passed (.assured scale total batch) batch) := by
  rcases netDeltas_exact hmeasured hchecked with ⟨deltas, hnet, _⟩
  have hasks : ∀ t r, RowAbove t.held r.row → (Contract.assured scale total batch).asks t r :=
    fun _ _ h => h
  refine meets_and (served_applyTransfers hasks id trivial hchecked hnet ?_ hseen)
    (meets_applyTransfers hasks batch)
  exact fun accounts haccounts =>
    accepted_of_affords haccounts.1 htotal hmeasured hchecked haccounts.2

/-- The commit of a batch that cannot fail goes through. -/
theorem exists_cleared {s : Store} {tx : TxId} {outcome : Except Failure Unit} {stage : Stage}
    (hstands : s.AtStage (.assured scale total batch) tx stage)
    (hpassed : Passed (.assured scale total batch) batch outcome stage)
    (haccounts : (Contract.assured scale total batch).accounts s.accounts) :
    ∃ o after deltas accounts, s.live.get? tx = some o ∧
      Store.applyAll s.accounts o.pending.entries = .ok after ∧
      Cleared (.assured scale total batch) batch s.accounts after deltas accounts := by
  rcases hpassed with ⟨rfl, hready⟩
  cases hready with
  | @ready deltas accounts t' seen' _ hnet hentries hallowed hheld hreads hpending =>
      cases hstands with
      | @running o seen hlive hsame =>
          have haccepted := accepted_of_affords haccounts.1 htotal hmeasured hchecked haccounts.2
          rcases written_of_accepted hnet haccepted with ⟨after, hall, _⟩
          rw [OpenTx.idle_pending] at hpending
          refine ⟨o, after, deltas, accounts, hlive, hpending ▸ hall, hchecked, hnet, hentries,
            hallowed, ?_, hall⟩
          -- The rows are under lock, so what was read is still so.
          intro hlocked l hl
          rcases hreads hlocked l hl with ⟨account, haccount, hbalance⟩
          exact ⟨account, (hsame hlocked l.id (hheld l hl)).trans haccount, hbalance⟩

end Assured

end Work

end RowLedger
