import RowLedger.Proofs.Assured
import RowLedger.Proofs.Waiting

/-!
# Runs of batches that cannot fail

What becomes of a batch under way that cannot fail, however far it gets. Up to
its commit its body only asks and tells, so it leaves all accounts as they are,
and the others as well. Then it commits. So wherever it stops, either nothing
has happened to the accounts and the batch can be taken up again, or all of it
has happened and its transaction is gone.

If it ran as far as it could and has not ended, it waits for a row, and it has
just looked: there is somebody who holds it.

## Main definitions

* `Work.Brisk`: Work that asks and tells until it ends.
* `Work.Paid`: What a batch leaves behind that was committed.

## Theorems

* `walks_brisk`: Brisk work changes no accounts and disturbs nobody.
* `walked_concluded`: A batch that cannot fail is under way or committed.
* `run_blocked`: Work that ran until it was blocked has not been woken since.
* `performed_batch`: If nobody else is there, such a batch is committed at once.
-/

namespace RowLedger

namespace Store

variable {s : Store} {tx : TxId} {r : Request}

/-- To ask changes at most the record of the one who asks, and locks. -/
theorem ask_eq_put (s : Store) (tx : TxId) (r : Request) :
    (s.ask tx r).2 = s ∨ ∃ t locks, (s.ask tx r).2 = s.put tx t locks := by
  have hlook : ∀ t r, ∃ t' locks, (s.examine tx t r).2 = s.put tx t' locks := fun t r =>
    exists_put (examined s tx t r)
  rw [ask]
  split
  · rw [poll]
    cases s.live.get? tx with
    | none => exact Or.inl rfl
    | some t =>
        simp only
        split
        · exact Or.inr (hlook _ _)
        · exact Or.inl rfl
  · rw [request]
    cases s.live.get? tx with
    | none => exact Or.inl rfl
    | some t =>
        simp only
        split
        · exact Or.inr ⟨_, _, rfl⟩
        · exact Or.inr (hlook _ _)

theorem ask_accounts (s : Store) (tx : TxId) (r : Request) :
    (s.ask tx r).2.accounts = s.accounts := by
  rcases ask_eq_put s tx r with heq | ⟨t, locks, heq⟩
  · rw [heq]
  · rw [heq, put_accounts]

theorem ask_live (s : Store) (r : Request) {other : TxId} (hne : other ≠ tx) :
    (s.ask tx r).2.live.get? other = s.live.get? other := by
  rcases ask_eq_put s tx r with heq | ⟨t, locks, heq⟩
  · rw [heq]
  · rw [heq, put_live, if_neg fun hc => hne hc.symm]

theorem unwoken_of_examined {t : OpenTx} {result : Reply × Store}
    (hlook : Examined s tx t r result) (hwaiting : result.1 = .waiting) :
    ∃ w, result.2.wait? tx = some w ∧ w.woken = false := by
  cases hlook with
  | absent => simp at hwaiting
  | granted => exact absurd hwaiting (OpenTx.serve_ne_waiting _ _ _)
  | cycle => simp at hwaiting
  | waiting => exact ⟨_, wait?_put s tx _ _, rfl⟩

/-- Who is told to wait has not been woken yet. -/
theorem unwoken_of_waiting (hwaiting : (s.ask tx r).1 = .waiting) :
    ∃ w, (s.ask tx r).2.wait? tx = some w ∧ w.woken = false := by
  rw [ask] at hwaiting ⊢
  cases hblocked : s.isBlocked tx with
  | true =>
      rcases Option.isSome_iff_exists.1 hblocked with ⟨⟨r', woken⟩, hw⟩
      rcases wait?_eq_some_iff.1 hw with ⟨t, hlive, hb⟩
      rw [hblocked, if_pos rfl, poll, hlive] at hwaiting
      rw [if_pos rfl, poll, hlive]
      simp only [hb] at hwaiting ⊢
      cases woken with
      | true => exact unwoken_of_examined (examined s tx t r') hwaiting
      | false => exact ⟨_, hw, rfl⟩
  | false =>
      rw [hblocked, if_neg Bool.false_ne_true, request] at hwaiting
      rw [if_neg Bool.false_ne_true, request]
      cases hlive : s.live.get? tx with
      | none => simp [hlive] at hwaiting
      | some t =>
          by_cases hheld : r.row ∈ t.held
          · simp only [hlive, if_pos hheld] at hwaiting
            exact absurd hwaiting (OpenTx.serve_ne_waiting _ _ _)
          · simp only [hlive, if_neg hheld] at hwaiting ⊢
            exact unwoken_of_examined (examined s tx t r) hwaiting

end Store

namespace Work

variable {α β : Type} {tx : TxId}

/-- Work that only asks, and tells and notes something, until it ends. -/
def Brisk : Work α → Prop
  | .done _ => True
  | .request _ next => ∀ answer, (next answer).Brisk
  | .tell _ next => next.Brisk
  | .note _ next => next.Brisk
  | .commit _ => False
  | .rollback _ => False
  | .pause _ _ => False
  | .crash => False

section Brisk

theorem brisk_settle {w : Work α} {f : Except Failure α → Work β} (hw : w.Brisk)
    (hf : ∀ outcome, (f outcome).Brisk) : (w.settle f).Brisk := by
  induction w with
  | done outcome => exact hf outcome
  | request r next ih => exact fun answer => ih answer (hw answer)
  | tell notice next ih => exact ih hw
  | note n next ih => exact ih hw
  | commit => exact hw
  | rollback => exact hw
  | pause => exact hw
  | crash => exact hw

theorem brisk_bind {w : Work α} {f : α → Work β} (hw : w.Brisk) (hf : ∀ a, (f a).Brisk) :
    (w >>= f).Brisk := by
  refine brisk_settle hw fun outcome => ?_
  cases outcome with
  | ok a => exact hf a
  | error e => trivial

theorem brisk_ask (r : Request) : (ask r).Brisk := by
  intro answer
  cases answer with
  | ok amount => trivial
  | error fault => trivial

theorem brisk_lockAll (entries : List (AccountId × Decimal)) : (lockAll entries).Brisk := by
  induction entries with
  | nil => trivial
  | cons e rest ih =>
      rw [lockAll]
      exact brisk_bind (brisk_ask _) fun _ => brisk_bind ih fun _ => trivial

theorem brisk_checkResults (accounts : List Locked) : (checkResults accounts).Brisk := by
  rw [checkResults]
  split
  · trivial
  · trivial

theorem brisk_writeAll (accounts : List Locked) : (writeAll accounts).Brisk := by
  induction accounts with
  | nil => trivial
  | cons l rest ih =>
      rw [writeAll]
      split
      · exact ih
      · exact brisk_bind (brisk_bind (brisk_ask _) fun _ => trivial) fun _ => ih

theorem brisk_applyTransfers (batch : List Transfer) : (applyTransfers batch).Brisk := by
  rw [applyTransfers]
  split
  · trivial
  · split
    · trivial
    · exact brisk_bind (brisk_lockAll _) fun accounts =>
        brisk_bind (brisk_checkResults accounts) fun _ => brisk_writeAll accounts

/-- What brisk work does to a service: it changes no accounts, and nobody else's record. -/
structure Left (tx : TxId) (s s' : Service) : Prop where
  accounts : s'.store.accounts = s.store.accounts
  live : ∀ other, other ≠ tx → s'.store.live.get? other = s.store.live.get? other

theorem brisk_step {w : Work α} (hw : w.Brisk) (tx : TxId) (s : Service) :
    (w.step tx s).1.Brisk ∧ Left tx s (w.step tx s).2 := by
  have hsame : ∀ s : Service, Left tx s s := fun s => ⟨rfl, fun _ _ => rfl⟩
  cases w with
  | request r next =>
      have hstore := Service.request_store s tx r
      have hleft : Left tx s (s.request tx r).2 := by
        refine ⟨?_, fun other hne => ?_⟩
        · rw [hstore, Store.ask_accounts]
        · rw [hstore, Store.ask_live _ _ hne]
      rw [step]
      generalize s.request tx r = result at hleft
      rcases result with ⟨answer, s'⟩
      cases answer with
      | none => exact ⟨hw, hleft⟩
      | some answer => exact ⟨hw answer, hleft⟩
  | done outcome => exact ⟨hw, hsame s⟩
  | tell notice next => exact ⟨hw, rfl, fun _ _ => rfl⟩
  | note n next => exact ⟨hw, rfl, fun _ _ => rfl⟩
  | commit => exact hw.elim
  | rollback => exact hw.elim
  | pause => exact hw.elim
  | crash => exact hw.elim

/-- Brisk work changes no accounts and disturbs nobody. -/
theorem walks_brisk {w w' : Work α} {s s' : Service} (h : Walks tx w s w' s') (hw : w.Brisk) :
    w'.Brisk ∧ Left tx s s' := by
  induction h with
  | stays => exact ⟨hw, rfl, fun _ _ => rfl⟩
  | @goes w w' s s' _ ih =>
      rcases brisk_step hw tx s with ⟨hnext, hleft⟩
      rcases ih hnext with ⟨hend, hleft'⟩
      refine ⟨hend, hleft'.accounts.trans hleft.accounts, fun other hne => ?_⟩
      rw [hleft'.live other hne, hleft.live other hne]

theorem work_ne_conclude (progress : Progress β) (outcome : Except Failure α)
    (f : Except Failure α → Work β) : progress.work ≠ (conclude outcome).settle f := by
  cases outcome with
  | ok a => cases progress <;> simp [Progress.work, conclude, settle]
  | error e => cases progress <;> simp [Progress.work, conclude, settle]

/-- Brisk work that has stopped before its transaction was concluded waits for a row. -/
theorem blocked_of_brisk {progress : Progress β} {v : Work α} {f : Except Failure α → Work β}
    (hbrisk : v.Brisk) (hwork : progress.work = (v.settle conclude).settle f) :
    ∃ r next, progress = .blocked r next := by
  cases v with
  | request r next =>
      cases progress with
      | blocked r' next' => exact ⟨r', next', rfl⟩
      | _ => simp [Progress.work, settle] at hwork
  | done outcome => exact absurd hwork (work_ne_conclude progress outcome f)
  | tell notice next => cases progress <;> simp [Progress.work, settle] at hwork
  | note n next => cases progress <;> simp [Progress.work, settle] at hwork
  | commit => exact hbrisk.elim
  | rollback => exact hbrisk.elim
  | pause => exact hbrisk.elim
  | crash => exact hbrisk.elim

/-- The same where nothing comes afterwards. -/
theorem blocked_of_concluding {progress : Progress α} {v : Work α} (hbrisk : v.Brisk)
    (hwork : progress.work = v.settle conclude) : ∃ r next, progress = .blocked r next := by
  rw [← settle_done (v.settle conclude)] at hwork
  exact blocked_of_brisk hbrisk hwork

theorem ended_of_work {progress : Progress α} {outcome : Except Failure α}
    (hwork : progress.work = .done outcome) : progress = .ended outcome := by
  cases progress with
  | ended outcome' =>
      rw [Progress.work, Work.done.injEq] at hwork
      rw [hwork]
  | _ => simp [Progress.work] at hwork

-- Induction on the work: the last request is the one at which it stops.
/-- Work that ran until it was blocked has not been woken since. -/
theorem run_blocked {w : Work α} {s s' : Service} {r : Request}
    {next : Except StoreFault Decimal → Work α} (h : w.run tx s = (.blocked r next, s')) :
    ∃ wait, s'.store.wait? tx = some wait ∧ wait.woken = false := by
  induction w generalizing s with
  | done outcome => simp [run] at h
  | request r' next' ih =>
      have hstore := Service.request_store s tx r'
      have hanswer := Service.request_answer s tx r'
      rw [run] at h
      generalize s.request tx r' = result at h hstore hanswer
      rcases result with ⟨answer, s₁⟩
      cases answer with
      | some answer => exact ih answer h
      | none =>
          simp only [Prod.mk.injEq] at h hstore hanswer
          rw [← h.2, hstore]
          refine Store.unwoken_of_waiting ?_
          cases hreply : (s.store.ask tx r').1 with
          | waiting => rfl
          | served => simp [hreply, Reply.toAnswer] at hanswer
          | refused => simp [hreply, Reply.toAnswer] at hanswer
  | commit next' ih => exact ih _ h
  | rollback next' ih => exact ih _ h
  | pause millis next' => simp [run] at h
  | tell notice next' ih => exact ih h
  | note n next' ih => exact ih h
  | crash => simp [run] at h

end Brisk

/-- What a batch leaves behind that was committed. -/
structure Paid (scale : Nat) (total : Int) (batch : List Transfer) (tx : TxId)
    (s s' : Service) : Prop where
  plan : s'.plan = .empty
  up : s'.store.WaitsUp
  events : ∃ events, s'.store = s.store.after events ∧ ∀ e ∈ events, e.tx? = some tx
  ended : s'.store.live.get? tx = none
  others : ∀ other, other ≠ tx →
    (s'.store.live.get? other).isSome = (s.store.live.get? other).isSome
  balanced : Balanced scale total s'.store.accounts
  there : ∀ id, (s'.store.accounts.get? id).isSome = (s.store.accounts.get? id).isSome
  units : ∀ id, unitsOf s'.store.accounts id =
    unitsOf s.store.accounts id + (inflow batch id - outflow batch id)

section Assured

variable {scale : Nat} {total : Int} {batch : List Transfer}
  (htotal : total < Decimal.capacity scale) (hmeasured : Measured scale batch)
  (hchecked : Transfer.checkAll batch = .ok ())
include htotal hmeasured hchecked

/-- The commit of a batch that cannot fail. -/
theorem paid_commit {s : Service} {outcome : Except Failure Unit} {stage : Stage}
    (hplan : s.plan = .empty) (hsuits : s.store.Suits (.assured scale total batch))
    (hunder : Under (.assured scale total batch) s.store tx (.done outcome) stage
      (Passed (.assured scale total batch) batch)) :
    (s.commit tx).1 = .ok () ∧ Paid scale total batch tx s (s.commit tx).2 := by
  have hanswer := Service.commit_answer tx hplan
  have hstore := Service.commit_store tx hplan
  have hplan' := Service.commit_plan tx hplan
  have hfree : s.store.wait? tx = none := wait?_of_standing hunder.standing (by simp)
  have hstep : (s.store.step (.call tx .commit)).2 = (s.store.commit tx).2 :=
    Store.step_call_of_unblocked hunder.begun hfree .commit
  rcases hsuits.up.resolve_left id with ⟨hup, _⟩
  have hup' := Store.waitsUp_step hsuits.consistent hup (e := .call tx .commit) trivial
  rcases exists_cleared htotal hmeasured hchecked hunder.stands hunder.meets hsuits.accounts with
    ⟨o, after, deltas, locked, hlive, hall, hcleared⟩
  have hcommitted := Store.committed hlive
  have hended := Store.ended_commit s.store tx
  generalize s.commit tx = result at hanswer hstore hplan'
  rw [hstep] at hup'
  rw [← hstore] at hup' hended
  have hevents : result.2.store = s.store.after [.call tx .commit] := by
    rw [hstore, ← hstep]
    rfl
  generalize s.store.commit tx = committed at hanswer hstore hcommitted
  cases hcommitted with
  | conflict hdue =>
      have hnone := hsuits.due.resolve_left id
      rw [hnone] at hdue
      simp at hdue
  | rejected _ hbad =>
      rw [hall] at hbad
      simp at hbad
  | @applied accounts _ hall' =>
      rw [hall, Except.ok.injEq] at hall'
      subst hall'
      refine ⟨hanswer, hplan', hup', ⟨_, hevents, by simp [Event.tx?]⟩, hended, ?_, ?_, ?_, ?_⟩
      · intro other hne
        rw [hstore]
        change ((s.store.release tx).live.get? other).isSome = _
        rw [Store.live_release hlive, if_neg fun hc => hne hc.symm, Option.isSome_map]
      · rw [hstore]
        exact balanced_cleared hcleared trivial hsuits.accounts.1 hmeasured htotal
      · intro id
        rw [hstore]
        exact Store.isSome_applyAll hall id
      · intro id
        rw [hstore]
        exact unitsOf_cleared hcleared trivial hsuits.accounts.1 hmeasured htotal id

omit htotal hmeasured hchecked in
/-- What comes before a batch is paid belongs to it, as long as no account is changed. -/
theorem paid_after {s s₁ s' : Service} (h : Paid scale total batch tx s₁ s')
    (hleft : Left tx s s₁)
    (hevents : ∃ events, s₁.store = s.store.after events ∧ ∀ e ∈ events, e.tx? = some tx) :
    Paid scale total batch tx s s' := by
  rcases hevents with ⟨first, hfirst, htx⟩
  rcases h.events with ⟨rest, hrest, htx'⟩
  refine ⟨h.plan, h.up, ⟨first ++ rest, ?_, ?_⟩, h.ended, ?_, h.balanced, ?_, ?_⟩
  · rw [Store.after_append, ← hfirst, hrest]
  · intro e he
    rcases List.mem_append.1 he with he | he
    · exact htx e he
    · exact htx' e he
  · intro other hne
    rw [h.others other hne, hleft.live other hne]
  · intro id
    rw [h.there, hleft.accounts]
  · intro id
    rw [h.units, hleft.accounts]

/-- However far a batch gets that cannot fail: it is under way, or it is committed. -/
theorem walked_concluded {v w' : Work Unit} {s s' : Service} {stage : Stage}
    (hplan : s.plan = .empty) (hsuits : s.store.Suits (.assured scale total batch))
    (hunder : Under (.assured scale total batch) s.store tx v stage
      (Passed (.assured scale total batch) batch))
    (hbrisk : v.Brisk) (hwalk : Walks tx (v.settle conclude) s w' s') :
    (∃ v', w' = v'.settle conclude ∧ v'.Brisk ∧ Left tx s s' ∧
        Reached (.assured scale total batch) s tx stage
          (Passed (.assured scale total batch) batch) v' s') ∨
      (w' = .done (.ok ()) ∧ Paid scale total batch tx s s') := by
  rcases walks_settle hwalk with ⟨v', rfl, hv⟩ | ⟨outcome, s₁, hv, hrest⟩
  · rcases walks_brisk hv hbrisk with ⟨hbrisk', hleft⟩
    exact Or.inl ⟨v', rfl, hbrisk', hleft, under_walk hv hplan hsuits hunder⟩
  · have hreached := under_walk hv hplan hsuits hunder
    rcases walks_brisk hv hbrisk with ⟨_, hleft⟩
    rcases hreached.under with ⟨stage₁, hunder₁, _⟩
    have hok : outcome = .ok () := hunder₁.meets.1
    rw [hok] at hreached hunder₁ hrest
    rcases walks_cases hrest with ⟨rfl, rfl⟩ | hlast
    · exact Or.inl ⟨.done (.ok ()), rfl, trivial, hleft, hreached⟩
    · rcases paid_commit htotal hmeasured hchecked hreached.plan hreached.suits hunder₁ with
        ⟨hanswer, hpaid⟩
      simp only [conclude, step, hanswer] at hlast
      rcases walks_done hlast with ⟨rfl, rfl⟩
      exact Or.inr ⟨rfl, paid_after hpaid hleft hreached.events⟩

omit htotal hmeasured hchecked in
/-- Whoever waits without having been woken waits for somebody else. -/
theorem exists_other {s : Store} (h : s.Consistent) {wait : Wait} (hwait : s.wait? tx = some wait)
    (hunwoken : wait.woken = false) : ∃ other o, other ≠ tx ∧ s.live.get? other = some o := by
  rcases Store.wait?_eq_some_iff.1 hwait with ⟨t, hlive, hblocked⟩
  rcases Option.isSome_iff_exists.1 (h.unwoken_held tx t wait hlive hblocked hunwoken) with
    ⟨holder, hheld⟩
  rcases (h.holder_iff _ _).1 hheld with ⟨o, hholder, _⟩
  refine ⟨holder, o, ?_, hholder⟩
  rintro rfl
  exact h.holder_ne hlive (h.blocked_new hlive hblocked) hheld

omit htotal hmeasured hchecked in
/-- A store in which a batch that cannot fail may begin. -/
theorem suits_assured {s : Store} (hconsistent : s.Consistent) (hup : s.WaitsUp)
    (hdue : s.conflictsDue = 0) (hbalanced : Balanced scale total s.accounts)
    (haffords : Affords s.accounts batch) : s.Suits (.assured scale total batch) where
  consistent := hconsistent
  accounts := ⟨hbalanced, haffords⟩
  up := Or.inr ⟨hup, fun _ _ h => h⟩
  due := Or.inr hdue

/-- A batch that cannot fail ends with its success if nobody else is there. -/
theorem run_assured {s : Service} (hplan : s.plan = .empty)
    (hsuits : s.store.Suits (.assured scale total batch))
    (hnobody : ∀ tx, s.store.live.get? tx = none) (notice : Notice) :
    ∃ s', ((applyTransfers batch).concluded >>= fun _ => say notice).run s.start.1 s.start.2 =
        (.ended (.ok ()), s') ∧
      Paid scale total batch s.start.1 s.start.2 s' := by
  rcases under_start hsuits (passed_applyTransfers htotal hmeasured hchecked hsuits.accounts) with
    ⟨hsuits', hunder⟩
  have hwalk := walks_run s.start.1 ((applyTransfers batch).concluded >>= fun _ => say notice)
    s.start.2
  cases hrun : ((applyTransfers batch).concluded >>= fun _ => say notice).run s.start.1
      s.start.2 with
  | mk progress s' =>
      rw [hrun] at hwalk
      have hplan' : s.start.2.plan = .empty := hplan
      have hconcluded {w : Work Unit} {s₁ : Service}
          (h : Walks s.start.1 (applyTransfers batch).concluded s.start.2 w s₁) :=
        walked_concluded htotal hmeasured hchecked hplan' hsuits' hunder
          (brisk_applyTransfers batch) h
      rcases walks_settle hwalk with ⟨v, hv, hmid⟩ | ⟨outcome, s₁, hmid, hlast⟩
      · rcases hconcluded hmid with ⟨v', rfl, hbrisk, hleft, hreached⟩ | ⟨rfl, _⟩
        -- It would have to wait for somebody.
        · rcases blocked_of_brisk hbrisk hv with ⟨r, next, rfl⟩
          rcases run_blocked hrun with ⟨wait, hwait, hunwoken⟩
          rcases exists_other hreached.suits.consistent hwait hunwoken with
            ⟨other, o, hne, hlive⟩
          rw [hleft.live other hne] at hlive
          rcases Store.live_start_cases hlive with ⟨heq, _⟩ | hold
          · exact absurd heq.symm hne
          · rw [hnobody other] at hold
            simp at hold
        · cases progress <;> simp [Progress.work, settle, say] at hv
      · rcases hconcluded hmid with ⟨v', hv', hbrisk, _⟩ | ⟨hok, hpaid⟩
        · have hstopped : (Progress.ended outcome).work = v'.settle conclude := hv'
          rcases blocked_of_concluding hbrisk hstopped with ⟨r, next, hblocked⟩
          simp at hblocked
        · rw [Work.done.injEq] at hok
          subst hok
          rcases walks_cases hlast with ⟨htold, _⟩ | hlast
          · cases progress <;> simp [Progress.work, say] at htold
          · rcases walks_done hlast with ⟨hend, rfl⟩
            have hprogress : progress = .ended (.ok ()) := ended_of_work hend
            rw [hprogress]
            exact ⟨_, rfl, hpaid.plan, hpaid.up, hpaid.events, hpaid.ended, hpaid.others,
              hpaid.balanced, hpaid.there, hpaid.units⟩

end Assured

end Work

/-- If nobody else is there, a batch that cannot fail is committed at once. -/
theorem Operation.performed_batch {scale : Nat} {total : Int} {batch : List Transfer} {s : Service}
    (htotal : total < Decimal.capacity scale) (hmeasured : Measured scale batch)
    (hchecked : Transfer.checkAll batch = .ok ()) (hsome : batch ≠ []) (hplan : s.plan = .empty)
    (hsuits : s.store.Suits (.assured scale total batch))
    (hnobody : ∀ tx, s.store.live.get? tx = none) :
    ∃ s', (Operation.batch batch).perform s = (.ended (.ok ()), s') ∧
      Work.Paid scale total batch s.start.1 s.start.2 s' := by
  rcases Work.run_assured htotal hmeasured hchecked hplan hsuits hnobody
    (.batchDone batch.length) with ⟨s', hrun, hpaid⟩
  have hlist : batch.isEmpty = false := by
    rw [List.isEmpty_eq_false_iff]
    exact hsome
  refine ⟨s', ?_, hpaid⟩
  rw [Operation.batch, hchecked]
  simp only [hlist, Bool.false_eq_true, ↓reduceIte]
  exact perform_inTransaction hrun hpaid.ended

end RowLedger
