import RowLedger.Conflict
import RowLedger.Proofs.Turns

/-!
# Work under a contract

What a unit of work does in a transaction, whatever the others do meanwhile.
The others are known by a contract only: what is true of the accounts at any
time, whether an account under lock stays as it is, and whether there are
conflicts. To meet the contract the work has to ask for no other rows than it
may, and its commit has to leave accounts behind of which the same is true.

A transaction that is answered at all is answered as if it were alone, so its
record is followed through the work (`Stage`) together with the accounts of the
last time it asked. Between two calls the accounts may become any others that
the contract allows, as far as the transaction has not locked them.

`Work.Meets` is a weakest precondition, computed along the work: what is asked
for at the end is asked of the outcome and of the last stage.

## Main definitions

* `Contract`: What work may expect and what it has to respect.
* `Stage`: How far a transaction has come.
* `Work.Meets`: Work that meets a contract, from a stage on.

## Theorems

* `meets_mono`: Who reaches an end reaches a weaker one.
* `meets_settle`, `meets_bind`: Work one after another.
* `meets_ask`, `meets_concluded`: The calls of a transaction.
-/

namespace RowLedger

/-- What the store refuses with a conflict is a conflict for its callers, and nothing else is. -/
theorem Refusal.isConflict_failure (reason : Refusal) :
    (Failure.ofStoreFault reason.toFault).isConflict = reason.isConflict := by
  cases reason with
  | ended => rfl
  | noAccount => rfl
  | deadlock => rfl
  | balanceOverflow => rfl
  | deltaOverflow => rfl
  | negativeBalance => rfl
  | serialization => rfl

/-- What work may expect of the others and what it has to respect. -/
structure Contract where
  /-- What is true of the accounts at any time. -/
  accounts : Table AccountId Account → Prop
  /-- An account under lock stays as it is. -/
  locked : Prop
  /-- The requests that work may make. -/
  asks : OpenTx → Request → Prop
  /-- A call may be the victim of a cycle. -/
  victims : Prop
  /-- A commit may meet a conflict that was due. -/
  conflicts : Prop

/-- How far a transaction has come. -/
inductive Stage where
  /-- It is open, and the accounts are those of its last request. -/
  | running (t : OpenTx) (seen : Table AccountId Account)
  /-- It has ended. If it was committed, the accounts before and after that are known. -/
  | ended (change : Option (Table AccountId Account × Table AccountId Account))

/-- The accounts before and after the commit, if there was one. -/
def Stage.change : Stage → Option (Table AccountId Account × Table AccountId Account)
  | .running .. => none
  | .ended change => change

/-- What the accounts may have become for a transaction since its last request. -/
def Contract.Sees (c : Contract) (t : OpenTx) (seen accounts : Table AccountId Account) : Prop :=
  c.accounts accounts ∧ (c.locked → ∀ row ∈ t.held, accounts.get? row = seen.get? row)

namespace Work

variable {α β : Type} {c : Contract}

/-- From this stage on the work meets the contract, and at its end this is true. -/
def Meets (c : Contract) : Work α → Stage → (Except Failure α → Stage → Prop) → Prop
  | .done outcome, stage, post => post outcome stage
  | .request r next, .running t seen, post =>
    c.asks t r ∧ ∀ accounts, c.Sees t seen accounts →
      (∀ answer, (t.alone accounts r).1.toAnswer = some answer →
        (next answer).Meets c (.running (t.alone accounts r).2 accounts) post) ∧
      (c.victims → ∀ fault, fault.isConflict = true →
        (next (.error fault)).Meets c (.running t accounts) post)
  | .request _ next, .ended change, post => (next (.error .closed)).Meets c (.ended change) post
  | .commit next, .running t seen, post =>
    ∀ accounts, c.Sees t seen accounts →
      (c.conflicts → ∀ fault, fault.isConflict = true →
        (next (.error fault)).Meets c (.ended none) post) ∧
      (∀ reason, Store.applyAll accounts t.pending.entries = .error reason →
        (next (.error reason.toFault)).Meets c (.ended none) post) ∧
      (∀ accounts', Store.applyAll accounts t.pending.entries = .ok accounts' →
        c.accounts accounts' ∧
          (next (.ok ())).Meets c (.ended (some (accounts, accounts'))) post)
  | .commit next, .ended change, post => (next (.error .closed)).Meets c (.ended change) post
  | .rollback next, .running _ _, post => (next (.ok ())).Meets c (.ended none) post
  | .rollback next, .ended change, post => (next (.ok ())).Meets c (.ended change) post
  | .pause _ next, stage, post => next.Meets c stage post
  | .tell _ next, stage, post => next.Meets c stage post
  | .note _ next, stage, post => next.Meets c stage post
  | .crash, _, _ => True

-- Induction on the work. At each call the stage decides which clause of `Meets` it is: an open
-- transaction is answered, one that has ended is refused.
/-- To go on with the outcome is to go on from where the work has ended. -/
theorem meets_settle {w : Work α} {f : Except Failure α → Work β} {stage : Stage}
    {mid : Except Failure α → Stage → Prop} {post : Except Failure β → Stage → Prop}
    (h : w.Meets c stage mid)
    (hnext : ∀ outcome stage, mid outcome stage → (f outcome).Meets c stage post) :
    (w.settle f).Meets c stage post := by
  induction w generalizing stage with
  | done outcome => exact hnext outcome stage h
  | request r next ih =>
      cases stage with
      | running t seen =>
          refine ⟨h.1, ?_⟩
          intro accounts hsees
          rcases h.2 accounts hsees with ⟨hanswer, hvictim⟩
          refine ⟨fun answer ha => ih answer (hanswer answer ha), ?_⟩
          exact fun hv fault hf => ih _ (hvictim hv fault hf)
      | ended change => exact ih _ h
  | commit next ih =>
      cases stage with
      | running t seen =>
          intro accounts hsees
          rcases h accounts hsees with ⟨hconflict, hrejected, happlied⟩
          refine ⟨fun hc fault hf => ih _ (hconflict hc fault hf), ?_, ?_⟩
          · exact fun reason hall => ih _ (hrejected reason hall)
          · intro accounts' hall
            rcases happlied accounts' hall with ⟨hgood, hlater⟩
            exact ⟨hgood, ih _ hlater⟩
      | ended change => exact ih _ h
  | rollback next ih =>
      cases stage with
      | running t seen => exact ih _ h
      | ended change => exact ih _ h
  | pause millis next ih => exact ih h
  | tell notice next ih => exact ih h
  | note n next ih => exact ih h
  | crash => trivial

/-- Who reaches an end reaches a weaker one. -/
theorem meets_mono {w : Work α} {stage : Stage} {mid post : Except Failure α → Stage → Prop}
    (h : w.Meets c stage mid) (hpost : ∀ outcome stage, mid outcome stage → post outcome stage) :
    w.Meets c stage post := by
  have := meets_settle (f := .done) h hpost
  rwa [settle_done] at this

/-- One after another: the first failure ends it all. -/
theorem meets_bind {w : Work α} {f : α → Work β} {stage : Stage}
    {mid : Except Failure α → Stage → Prop} {post : Except Failure β → Stage → Prop}
    (h : w.Meets c stage mid) (hok : ∀ a stage, mid (.ok a) stage → (f a).Meets c stage post)
    (herror : ∀ e stage, mid (.error e) stage → post (.error e) stage) :
    (w >>= f).Meets c stage post := by
  refine meets_settle h ?_
  intro outcome stage hmid
  cases outcome with
  | ok a => exact hok a stage hmid
  | error e => exact herror e stage hmid

section Calls

variable {t : OpenTx} {seen : Table AccountId Account}

/-- A request that may be made. It is served, or else it fails, with a conflict only if there are
victims. -/
theorem meets_ask {r : Request} {post : Except Failure Decimal → Stage → Prop}
    (hasks : c.asks t r)
    (hserved : ∀ accounts amount, c.Sees t seen accounts →
      (t.alone accounts r).1 = .served amount →
      post (.ok amount) (.running (t.alone accounts r).2 accounts))
    (hrefused : ∀ e t' accounts, (e.isConflict = true → c.victims) →
      post (.error e) (.running t' accounts)) :
    (ask r).Meets c (.running t seen) post := by
  refine ⟨hasks, ?_⟩
  intro accounts hsees
  -- The victim of a cycle is refused as well, only for another reason.
  refine ⟨?_, fun hvictims fault _ => hrefused _ _ _ fun _ => hvictims⟩
  intro answer hanswer
  cases hreply : (t.alone accounts r).1 with
  | served amount =>
      rw [hreply, Reply.toAnswer, Option.some.injEq] at hanswer
      rw [← hanswer]
      exact hserved accounts amount hsees hreply
  | refused reason =>
      rw [hreply, Reply.toAnswer, Option.some.injEq] at hanswer
      rw [← hanswer]
      refine hrefused _ _ _ fun hconflict => ?_
      rw [Refusal.isConflict_failure, OpenTx.alone_refused hreply] at hconflict
      simp at hconflict
  | waiting => exact absurd hreply (OpenTx.alone_ne_waiting t r)

/-- Work that ends its transaction by its outcome. -/
theorem meets_concluded {w : Work α} {stage : Stage} {mid post : Except Failure α → Stage → Prop}
    (h : w.Meets c stage mid)
    (hok : ∀ a stage, mid (.ok a) stage → ∃ t seen, stage = .running t seen ∧
      ∀ accounts accounts', c.Sees t seen accounts →
        Store.applyAll accounts t.pending.entries = .ok accounts' →
        c.accounts accounts' ∧ post (.ok a) (.ended (some (accounts, accounts'))))
    (herror : ∀ e stage, mid (.error e) stage →
      ∃ t seen, stage = .running t seen ∧ post (.error e) (.ended none))
    (hfail : ∀ e, (e.isConflict = true → c.conflicts) → post (.error e) (.ended none)) :
    w.concluded.Meets c stage post := by
  refine meets_settle h ?_
  intro outcome stage hmid
  cases outcome with
  | ok a =>
      rcases hok a stage hmid with ⟨t, seen, rfl, happlied⟩
      intro accounts hsees
      refine ⟨fun hconflicts fault _ => hfail _ fun _ => hconflicts, ?_, ?_⟩
      · intro reason hall
        refine hfail _ fun hconflict => ?_
        rw [Refusal.isConflict_failure, Store.isConflict_applyAll hall] at hconflict
        simp at hconflict
      · exact fun accounts' hall => happlied accounts accounts' hsees hall
  | error e =>
      rcases herror e stage hmid with ⟨t, seen, rfl, hpost⟩
      exact hpost

end Calls

end Work

end RowLedger
