import RowLedger.Conflict
import RowLedger.Proofs.Attempts

/-!
# Calls that are cut short

A call in a scope, whatever its body does. As soon as the call is polled at an
instant at which its scope has fired, it is over: it returns what the scope
tells it, it makes no further attempt, and a transaction that is open goes
without a trace, even if it waits for a row. If the scope has fired before the
call is entered, nothing happens at all. The scope comes first at every poll, so
a call returns a value only if its scope had not fired at the poll at which the
last run of the body came to its end.

This takes a classification by which a cancellation or a passed limit is no
conflict. By another one a call could be retried after its scope has fired.

## Main definitions

* `Scope.Tells`: What a scope tells at an instant.
* `RetryRules.HeedsScope`: What a scope tells is no conflict.
* `Course.CutShort`: A call before and after its scope ended it.

## Theorems

* `notice?_isSome_iff`: A call notices its scope as soon as it has fired.
* `consistent_amid`, `consistent_after`: The store of a call stays consistent.
* `cutShort_cut`: What comes of a call when its scope fires.
* `value?_step`, `exists_last_poll`: Where a call has its value from.
* `enter_of_fired`, `poll_of_fired`: A call whose scope has fired is entered, or
  polled.
* `scope_ends_call`: A scope that has fired ends the call.
-/

namespace RowLedger

/-- What a scope tells at an instant. -/
inductive Scope.Tells (s : Scope) (now : Nat) : Failure → Prop where
  | cancelled {instant : Nat} (hcancel : s.cancelAt = some instant) (hle : instant ≤ now) :
      Tells s now .cancelled
  | timedOut {limit : UInt64} (hlimit : s.limit = some limit) (hle : limit.toNat ≤ now) :
      Tells s now (.timedOut (.ofMillis limit))

namespace Scope

variable {s : Scope} {now : Nat} {e : Failure} {limitFirst : Bool}

theorem tells_of_fired (h : s.fired? now = some e) : s.Tells now e := by
  rw [fired?] at h
  split at h
  · rename_i hany
    rw [Option.any_eq_true] at hany
    rcases hany with ⟨instant, hcancel, hle⟩
    rw [← Option.some.inj h]
    exact .cancelled hcancel (of_decide_eq_true hle)
  · split at h
    · simp at h
    · rename_i limit hlimit
      split at h
      · rename_i hle
        rw [← Option.some.inj h]
        exact .timedOut hlimit hle
      · simp at h

theorem tells_of_notice (h : s.notice? limitFirst now = some e) : s.Tells now e := by
  rw [notice?] at h
  split at h
  · exact tells_of_fired h
  · rename_i limit hlimit
    split at h
    · rename_i hboth
      rw [Bool.and_eq_true, decide_eq_true_eq] at hboth
      rw [← Option.some.inj h]
      exact .timedOut hlimit hboth.2
    · exact tells_of_fired h

/-- In which order a call looks does not matter for whether it notices something. -/
theorem notice?_isSome (s : Scope) (limitFirst : Bool) (now : Nat) :
    (s.notice? limitFirst now).isSome = (s.fired? now).isSome := by
  rw [notice?]
  split
  · rfl
  · rename_i limit hlimit
    split
    · rename_i hboth
      rw [Bool.and_eq_true, decide_eq_true_eq] at hboth
      rw [fired?, hlimit]
      simp only [if_pos hboth.2]
      split
      · rfl
      · rfl
    · rfl

theorem notice?_isSome_iff :
    (s.notice? limitFirst now).isSome = true ↔ ∃ t, s.firesAt? = some t ∧ t ≤ now := by
  rw [notice?_isSome, fired?_isSome_iff]

theorem lt_of_notice (h : s.notice? limitFirst now = none) {t : Nat} (ht : s.firesAt? = some t) :
    now < t := by
  refine Nat.lt_of_not_le fun hle => ?_
  have hsome : (s.notice? limitFirst now).isSome = true := notice?_isSome_iff.2 ⟨t, ht, hle⟩
  rw [h] at hsome
  simp at hsome

end Scope

/-- What a scope tells is no conflict. -/
structure RetryRules.HeedsScope {α : Type} (rules : RetryRules α) : Prop where
  cancelled : rules.isConflict .cancelled = false
  timedOut : ∀ limit, rules.isConflict (.timedOut limit) = false

theorem RetryRules.isConflict_of_tells {α : Type} {rules : RetryRules α} (h : rules.HeedsScope)
    {scope : Scope} {now : Nat} {e : Failure} (ht : scope.Tells now e) :
    rules.isConflict e = false := by
  cases ht with
  | cancelled => exact h.cancelled
  | timedOut => exact h.timedOut _

/-- The default classification goes by the scope. -/
theorem RetryRules.heedsScope_default {α : Type} {rules : RetryRules α}
    (h : rules.isConflict = Failure.isConflict) : rules.HeedsScope := by
  constructor
  · rw [h]
    rfl
  · intro limit
    rw [h]
    rfl

namespace Store

variable {s : Store} {tx : TxId}

theorem consistent_ask (h : s.Consistent) (tx : TxId) (r : Request) :
    (s.ask tx r).2.Consistent := by
  by_cases hle : tx ≤ s.begun
  · rw [← step_asking hle]
    exact consistent_step h _
  · -- Who was never opened is not open.
    have hended : s.live.get? tx = none := by
      cases hlive : s.live.get? tx with
      | none => rfl
      | some t => exact absurd (h.live_le tx t hlive) hle
    rw [ask_of_ended hended]
    exact h

theorem consistent_commit (h : s.Consistent) (tx : TxId) : (s.commit tx).2.Consistent := by
  cases hlive : s.live.get? tx with
  | none =>
      rw [commit_of_ended hlive]
      exact h
  | some t => exact consistent_committed h hlive (committed hlive)

theorem abandon_accounts (s : Store) (tx : TxId) : (s.abandon tx).accounts = s.accounts := by
  rw [abandon]
  split
  · rfl
  · rfl

theorem abandon_begun (s : Store) (tx : TxId) : (s.abandon tx).begun = s.begun := by
  rw [abandon]
  split
  · rfl
  · rfl

end Store

namespace Service

variable {s : Service}

theorem consistent_commit (h : s.store.Consistent) (tx : TxId) :
    (s.commit tx).2.store.Consistent := by
  rcases s.commit_seen tx with ⟨_, _, hstore, _⟩ | ⟨_, hstore, _⟩
  · rw [hstore]
    exact h
  · rw [hstore]
    exact Store.consistent_commit h tx

theorem consistent_rollback (h : s.store.Consistent) (tx : TxId) :
    (s.rollback tx).2.store.Consistent := by
  rcases s.rollback_seen tx with ⟨hstore, _⟩ | ⟨hstore, _⟩
  · rw [hstore]
    exact h
  · rw [hstore]
    exact Store.consistent_step h (.drop tx)

/-- A rollback and a drop end a transaction, also if a fault takes the place of the rollback. -/
theorem dropped_rollback (s : Service) (tx : TxId) :
    ((s.rollback tx).2.store.release tx).accounts = s.store.accounts ∧
      ((s.rollback tx).2.store.release tx).begun = s.store.begun := by
  rcases s.rollback_seen tx with ⟨hstore, _⟩ | ⟨hstore, _⟩
  · rw [hstore]
    simp
  · rw [hstore]
    simp

end Service

/-- Work leaves the store consistent, whatever it does and whoever is about. -/
theorem Work.consistent_amid {α : Type} (tx : TxId) (w : Work α) (company : List (List Event))
    {s : Service} (h : s.store.Consistent) : (w.amid tx company s).2.2.store.Consistent := by
  induction w generalizing company s with
  | done outcome => exact h
  | request r next ih =>
      set others := Event.around (some tx) (company.headD []) with hothers
      have hask : ((s.happen others).request tx r).2.store.Consistent := by
        rw [Service.request_store]
        exact Store.consistent_ask (Store.consistent_after h others) tx r
      rw [amid]
      simp only [← hothers]
      rcases hrequest : (s.happen others).request tx r with ⟨answer, s'⟩
      rw [hrequest] at hask
      cases answer with
      | none => exact hask
      | some answer => exact ih answer company.tail hask
  | commit next ih =>
      exact ih _ _ (Service.consistent_commit (Store.consistent_after h _) tx)
  | rollback next ih =>
      exact ih _ _ (Service.consistent_rollback (Store.consistent_after h _) tx)
  | pause millis next => exact h
  | tell notice next ih => exact ih _ h
  | note n next ih => exact ih _ h
  | crash => exact h

namespace RetryCall

variable {α : Type} (rules : RetryRules α) (c : RetryCall α) (b : Bench)

theorem attemptEnded_store (outcome : Except Failure α) :
    (c.attemptEnded rules outcome b).2.service.store = b.service.store := by
  cases outcome with
  | ok a => exact (c.attemptEnded_ok rules b a).1
  | error e => exact (c.attemptEnded_error rules b e).1

theorem consistent_advanced {progress : Work.Progress α × Service}
    (h : progress.2.store.Consistent) (tx : TxId) (tally : Tally) :
    (c.advanced rules tx progress tally).2.service.store.Consistent := by
  rcases progress with ⟨progress, s⟩
  have hdropped : (s.drop tx).store.Consistent := Store.consistent_step h (.drop tx)
  cases progress with
  | ended outcome =>
      rw [advanced, attemptEnded_store]
      exact hdropped
  | blocked r next => exact h
  | pausing millis next => exact h
  | crashed => exact hdropped

theorem consistent_cutOff (h : b.service.store.Consistent) (tx : TxId) (e : Failure) :
    (c.cutOff rules tx e b).2.service.store.Consistent := by
  rw [cutOff, ← Work.amid_alone]
  refine consistent_advanced rules c ?_ tx b.tally
  exact Work.consistent_amid tx _ [] (Store.consistent_step h (.abandon tx))

/-- The scope may fire at any time. -/
theorem consistent_fire (h : b.service.store.Consistent) (e : Failure) :
    (c.fire rules e b).2.service.store.Consistent := by
  rw [fire]
  cases c.phase with
  | beginning fault =>
      simp only [attemptEnded_store]
      exact h
  | blocked tx r next => exact consistent_cutOff rules c b h tx e
  | pausing tx millis next => exact consistent_cutOff rules c b h tx e
  | sleeping wait => exact h
  | «over» how => exact h

variable {rules c b}

/-- A failure that is no conflict ends the call with it. -/
theorem attemptEnded_final {e : Failure} (hfinal : rules.isConflict e = false) :
    c.attemptEnded rules (.error e) b = ({ c with phase := .over (.returned (.error e)) },
      { b with tally := c.countRetry false b.tally }) := by
  rw [attemptEnded]
  simp only [hfinal, Bool.false_eq_true, if_false]

/-- A body that is cut off leaves no trace of its transaction. -/
theorem cutOff_final {e : Failure} (hfinal : rules.isConflict e = false) (tx : TxId) :
    ∃ s', c.cutOff rules tx e b = ({ c with phase := .over (.returned (.error e)) },
        ⟨s', c.countRetry false b.tally⟩) ∧
      s'.store.accounts = b.service.store.accounts ∧ s'.store.begun = b.service.store.begun ∧
      s'.store.live.get? tx = none := by
  rcases Work.run_conclude_error (α := α) tx e (b.service.abandon tx) with ⟨s, hrun, hstore⟩
  have hdropped : (s.drop tx).store = ((b.service.abandon tx).rollback tx).2.store.release tx := by
    rw [← hstore]
    rfl
  rcases (b.service.abandon tx).dropped_rollback tx with ⟨haccounts, hbegun⟩
  refine ⟨s.drop tx, ?_, ?_, ?_, Store.ended_release s.store tx⟩
  · rw [cutOff, hrun, advanced, attemptEnded_final hfinal]
  · rw [hdropped, haccounts]
    exact Store.abandon_accounts _ tx
  · rw [hdropped, hbegun]
    exact Store.abandon_begun _ tx

theorem exists_over (h : c.isOver = true) : ∃ how, c.phase = .over how := by
  rw [isOver] at h
  split at h
  · rename_i how hphase
    exact ⟨how, hphase⟩
  · simp at h

theorem isOver_of_value? {a : α} (h : c.value? = some a) : c.isOver = true := by
  rw [value?] at h
  split at h
  · rename_i hphase
    rw [isOver, hphase]
  · simp at h

theorem value?_attemptEnded_error (rules : RetryRules α) (c : RetryCall α) (b : Bench)
    (e : Failure) : (c.attemptEnded rules (.error e) b).1.value? = none :=
  succeeded_eq_false_iff.1 (c.attemptEnded_error rules b e).2.2

theorem value?_attemptFrom (attempt invoked : Nat) (b : Bench) :
    (attemptFrom (α := α) attempt invoked b).1.value? = none :=
  succeeded_eq_false_iff.1 (attemptFrom_quiet b attempt invoked).2.2

end RetryCall

namespace Course

variable {α : Type} {c : Course α}

theorem consistent_goOn (h : c.store.Consistent) (rules : RetryRules α)
    (company : List (List Event)) : (c.goOn rules company).store.Consistent := by
  rw [goOn]
  simp only [store, RetryCall.resumeAt]
  cases c.call.phase with
  | beginning fault =>
      cases fault with
      | some fault =>
          simp only [RetryCall.attemptEnded_store]
          exact h
      | none =>
          exact RetryCall.consistent_advanced _ _
            (Work.consistent_amid _ _ company (Store.consistent_start h)) _ _
  | blocked tx r next =>
      exact RetryCall.consistent_advanced _ _ (Work.consistent_amid _ _ company h) _ _
  | pausing tx millis next =>
      exact RetryCall.consistent_advanced _ _ (Work.consistent_amid _ _ company h) _ _
  | sleeping wait =>
      simp only [(RetryCall.attemptFrom_quiet (α := α) c.bench _ _).1]
      exact h
  | «over» how => exact h

/-- Whatever happens to a call leaves the store consistent. -/
theorem consistent_step (h : c.store.Consistent) (rules : RetryRules α) (scope : Scope)
    (beat : Beat α) : (c.step rules scope beat).store.Consistent := by
  cases beat with
  | others events => exact Store.consistent_after h _
  | poll now limitFirst company =>
      rw [step]
      cases scope.notice? limitFirst now with
      | some e => exact RetryCall.consistent_fire rules c.call c.bench h e
      | none => exact consistent_goOn h rules company
  | giveUp instead =>
      rw [step, giveUp]
      split
      · rename_i tx _ _ _
        exact Store.consistent_step h (.abandon tx)
      · exact h
  | drop =>
      simp only [step, RetryCall.abandon]
      split
      · exact h
      · cases c.call.openTx? with
        | none => exact h
        | some tx => exact Store.consistent_step h (.drop tx)

theorem consistent_after (h : c.store.Consistent) (rules : RetryRules α) (scope : Scope)
    (beats : List (Beat α)) : (c.after rules scope beats).store.Consistent := by
  induction beats generalizing c with
  | nil => exact h
  | cons beat rest ih => exact ih (consistent_step h rules scope beat)

theorem consistent_enter (scope : Scope) (now : Nat) {b : Bench}
    (h : b.service.store.Consistent) : (enter scope now b : Course α).store.Consistent := by
  simp only [enter, store, RetryCall.enter]
  cases scope.fired? now with
  | some e => exact h
  | none =>
      simp only [(RetryCall.attemptFrom_quiet (α := α) b 0 0).1]
      exact h

/-- A call that is over stays as it is, whatever else happens. -/
theorem step_of_isOver (h : c.call.isOver = true) (rules : RetryRules α) (scope : Scope)
    (beat : Beat α) :
    (c.step rules scope beat).call = c.call ∧ (c.step rules scope beat).opened = c.opened ∧
      (c.step rules scope beat).bench.tally = c.bench.tally := by
  rcases RetryCall.exists_over h with ⟨how, hphase⟩
  cases beat with
  | others events => exact ⟨rfl, rfl, rfl⟩
  | poll now limitFirst company =>
      rw [step]
      cases scope.notice? limitFirst now with
      | some e => simp [cut, RetryCall.fire, hphase]
      | none => simp [goOn, RetryCall.resumeAt, newTx, hphase]
  | giveUp instead => simp [step, giveUp, hphase]
  | drop => simp [step, RetryCall.abandon, hphase]

theorem after_of_isOver (h : c.call.isOver = true) (rules : RetryRules α) (scope : Scope)
    (beats : List (Beat α)) :
    (c.after rules scope beats).call = c.call ∧ (c.after rules scope beats).opened = c.opened ∧
      (c.after rules scope beats).bench.tally = c.bench.tally := by
  induction beats generalizing c with
  | nil => exact ⟨rfl, rfl, rfl⟩
  | cons beat rest ih =>
      rcases step_of_isOver h rules scope beat with ⟨hcall, hopened, htally⟩
      have hrest := ih (c := c.step rules scope beat) (by rw [hcall]; exact h)
      rw [hcall, hopened, htally] at hrest
      exact hrest

/-- A call before and after its scope has ended it. -/
structure CutShort (before after : Course α) (e : Failure) : Prop where
  /-- The call returns what it was told, and counts no attempt and no run of the body more. -/
  call : after.call = { before.call with phase := .over (.returned (.error e)) }
  opened : after.opened = before.opened
  begun : after.store.begun = before.store.begun
  accounts : after.store.accounts = before.store.accounts
  /-- The transaction that was open has ended. -/
  ended : ∀ tx, before.call.openTx? = some tx → after.store.live.get? tx = none
  /-- It holds no row and waits for none. -/
  freed : ∀ tx, before.call.openTx? = some tx →
    (∀ row, after.store.locks.holders.get? row ≠ some tx) ∧ after.store.locks.waits.get? tx = none

/-- What comes of a call when its scope fires. -/
theorem cutShort_cut (hcons : c.store.Consistent) (hover : c.call.isOver = false)
    {rules : RetryRules α} {e : Failure} (hfinal : rules.isConflict e = false) :
    c.CutShort (c.cut rules e) e := by
  have hcons' : (c.cut rules e).store.Consistent :=
    RetryCall.consistent_fire rules c.call c.bench hcons e
  -- What has ended in the end has lost its rows and its wait.
  have hcut : (c.cut rules e).call = { c.call with phase := .over (.returned (.error e)) } →
      (c.cut rules e).store.begun = c.store.begun →
      (c.cut rules e).store.accounts = c.store.accounts →
      (∀ tx, c.call.openTx? = some tx → (c.cut rules e).store.live.get? tx = none) →
      c.CutShort (c.cut rules e) e := fun hcall hbegun haccounts hended =>
    ⟨hcall, rfl, hbegun, haccounts, hended, fun tx htx =>
      ⟨Store.holder_ne_of_ended hcons' (hended tx htx),
        Store.waits_of_ended hcons' (hended tx htx)⟩⟩
  have hcutOff : ∀ tx, c.call.openTx? = some tx →
      c.call.fire rules e c.bench = c.call.cutOff rules tx e c.bench →
      c.CutShort (c.cut rules e) e := by
    intro tx hopen hfire
    rcases RetryCall.cutOff_final (c := c.call) (b := c.bench) hfinal tx with
      ⟨s', heq, haccounts, hbegun, hended⟩
    have hresult : c.call.fire rules e c.bench =
        ({ c.call with phase := .over (.returned (.error e)) },
          ⟨s', c.call.countRetry false c.bench.tally⟩) := hfire.trans heq
    refine hcut ?_ ?_ ?_ ?_
    · simp only [cut, hresult]
    · simp only [cut, store, hresult]
      exact hbegun
    · simp only [cut, store, hresult]
      exact haccounts
    · intro other hother
      rw [hopen, Option.some.injEq] at hother
      simp only [cut, store, hresult]
      exact hother ▸ hended
  cases hphase : c.call.phase with
  | beginning fault =>
      have hopen : c.call.openTx? = none := by simp [RetryCall.openTx?, hphase]
      have hresult : c.call.fire rules e c.bench =
          ({ c.call with phase := .over (.returned (.error e)) },
            { c.bench with tally := c.call.countRetry false c.bench.tally }) := by
        simp only [RetryCall.fire, hphase]
        exact RetryCall.attemptEnded_final hfinal
      refine hcut ?_ ?_ ?_ (by simp [hopen])
      · simp only [cut, hresult]
      · simp only [cut, store, hresult]
      · simp only [cut, store, hresult]
  | blocked tx r next =>
      exact hcutOff tx (by simp [RetryCall.openTx?, hphase]) (by simp [RetryCall.fire, hphase])
  | pausing tx millis next =>
      exact hcutOff tx (by simp [RetryCall.openTx?, hphase]) (by simp [RetryCall.fire, hphase])
  | sleeping wait =>
      have hopen : c.call.openTx? = none := by simp [RetryCall.openTx?, hphase]
      refine hcut ?_ ?_ ?_ (by simp [hopen])
      · simp only [cut, RetryCall.fire, hphase]
      · simp only [cut, store, RetryCall.fire, hphase]
      · simp only [cut, store, RetryCall.fire, hphase]
  | «over» how => simp [RetryCall.isOver, hphase] at hover

/-- The call goes on to a value only if its body runs. -/
theorem value?_goOn {rules : RetryRules α} {company : List (List Event)} {a : α}
    (hnone : c.call.value? = none) (hvalue : (c.goOn rules company).call.value? = some a) :
    c.newTx ≠ [] ∨ c.call.openTx? ≠ none := by
  cases hphase : c.call.phase with
  | beginning fault =>
      cases fault with
      | some fault =>
          simp [goOn, RetryCall.resumeAt, hphase, RetryCall.value?_attemptEnded_error] at hvalue
      | none => exact Or.inl (by simp [newTx, hphase])
  | blocked tx r next => exact Or.inr (by simp [RetryCall.openTx?, hphase])
  | pausing tx millis next => exact Or.inr (by simp [RetryCall.openTx?, hphase])
  | sleeping wait =>
      simp [goOn, RetryCall.resumeAt, hphase, RetryCall.value?_attemptFrom] at hvalue
  | «over» how => simp [goOn, RetryCall.resumeAt, hphase, hnone] at hvalue

/-- A call gets its value at a poll that finds the scope quiet. -/
theorem value?_step (hcons : c.store.Consistent) (hnone : c.call.value? = none)
    {rules : RetryRules α} (hheeds : rules.HeedsScope) {scope : Scope} {beat : Beat α} {a : α}
    (hvalue : (c.step rules scope beat).call.value? = some a) :
    ∃ now limitFirst company, beat = .poll now limitFirst company ∧ c.call.isOver = false ∧
      (c.newTx ≠ [] ∨ c.call.openTx? ≠ none) ∧ scope.notice? limitFirst now = none := by
  have hover : c.call.isOver = false := by
    rw [← Bool.not_eq_true]
    intro hover
    rw [(step_of_isOver hover rules scope beat).1, hnone] at hvalue
    simp at hvalue
  cases beat with
  | others events => simp [step, hnone] at hvalue
  | poll now limitFirst company =>
      rw [step] at hvalue
      cases hnotice : scope.notice? limitFirst now with
      | some e =>
          have hfinal := RetryRules.isConflict_of_tells hheeds (Scope.tells_of_notice hnotice)
          simp only [hnotice, (cutShort_cut hcons hover hfinal).call, RetryCall.value?] at hvalue
          simp at hvalue
      | none =>
          simp only [hnotice] at hvalue
          exact ⟨now, limitFirst, company, rfl, hover, value?_goOn hnone hvalue, hnotice⟩
  | giveUp instead =>
      rw [step, giveUp] at hvalue
      split at hvalue
      · simp [RetryCall.value?] at hvalue
      · rw [hnone] at hvalue
        simp at hvalue
  | drop =>
      simp only [step, RetryCall.abandon] at hvalue
      split at hvalue
      · rw [hnone] at hvalue
        simp at hvalue
      · simp [RetryCall.value?] at hvalue

/-- Where a call has its value from. -/
theorem exists_last_poll (hcons : c.store.Consistent) (hnone : c.call.value? = none)
    {rules : RetryRules α} (hheeds : rules.HeedsScope) {scope : Scope} {beats : List (Beat α)}
    {a : α} (hvalue : (c.after rules scope beats).call.value? = some a) :
    ∃ before now limitFirst company later,
      beats = before ++ .poll now limitFirst company :: later ∧
      (c.after rules scope before).call.isOver = false ∧
      ((c.after rules scope before).newTx ≠ [] ∨
        (c.after rules scope before).call.openTx? ≠ none) ∧
      ((c.after rules scope before).step rules scope (.poll now limitFirst company)).call.value? =
        some a ∧
      scope.notice? limitFirst now = none := by
  induction beats generalizing c with
  | nil =>
      change c.call.value? = some a at hvalue
      rw [hnone] at hvalue
      simp at hvalue
  | cons beat rest ih =>
      change ((c.step rules scope beat).after rules scope rest).call.value? = some a at hvalue
      cases hnext : (c.step rules scope beat).call.value? with
      | none =>
          rcases ih (consistent_step hcons rules scope beat) hnext hvalue with
            ⟨before, now, limitFirst, company, later, rfl, hlast⟩
          exact ⟨beat :: before, now, limitFirst, company, later, rfl, hlast⟩
      | some a' =>
          rcases value?_step hcons hnone hheeds hnext with
            ⟨now, limitFirst, company, rfl, hover, hruns, hquiet⟩
          -- From then on the call is over, and keeps its value.
          have hdone := RetryCall.isOver_of_value? hnext
          rw [(after_of_isOver hdone rules scope rest).1, hnext] at hvalue
          exact ⟨[], now, limitFirst, company, rest, rfl, hover, hruns, hnext.trans hvalue, hquiet⟩

/-- A call whose scope has fired before is over as soon as it is entered. -/
theorem enter_of_fired {scope : Scope} {entry : Nat} (b : Bench)
    (hfired : ∃ t, scope.firesAt? = some t ∧ t ≤ entry) : ∃ e, scope.Tells entry e ∧
      (enter scope entry b : Course α) = ⟨⟨0, 0, .over (.returned (.error e))⟩, b, [], []⟩ := by
  rcases Option.isSome_iff_exists.1 ((scope.fired?_isSome_iff entry).2 hfired) with ⟨e, he⟩
  refine ⟨e, Scope.tells_of_fired he, ?_⟩
  simp only [enter, RetryCall.enter, he]

theorem value?_enter (scope : Scope) (entry : Nat) (b : Bench) :
    (enter scope entry b : Course α).call.value? = none := by
  cases he : scope.fired? entry with
  | some e => simp [enter, RetryCall.enter, he, RetryCall.value?]
  | none => simp only [enter, RetryCall.enter, he, RetryCall.value?_attemptFrom]

/-- A call that is polled after its scope has fired is cut short. -/
theorem poll_of_fired (hcons : c.store.Consistent) (hover : c.call.isOver = false)
    {rules : RetryRules α} (hheeds : rules.HeedsScope) {scope : Scope} {now : Nat}
    (hfired : ∃ t, scope.firesAt? = some t ∧ t ≤ now) (limitFirst : Bool)
    (company : List (List Event)) : ∃ e, scope.Tells now e ∧
      c.CutShort (c.step rules scope (.poll now limitFirst company)) e := by
  have hsome : (scope.notice? limitFirst now).isSome = true := Scope.notice?_isSome_iff.2 hfired
  rcases Option.isSome_iff_exists.1 hsome with ⟨e, he⟩
  have htells := Scope.tells_of_notice he
  refine ⟨e, htells, ?_⟩
  rw [step, he]
  exact cutShort_cut hcons hover (RetryRules.isConflict_of_tells hheeds htells)

theorem CutShort.isOver {before after : Course α} {e : Failure} (h : before.CutShort after e) :
    after.call.isOver = true := by
  rw [h.call]
  rfl

/-- One account. -/
def counter : Bench := .ofStore (.ofAccounts (.ofList [(1, .fresh 1 (.ofUInt64 10))]))

/-- The account is asked for. -/
def inquiry : RetryRules Decimal where
  backoff := .default
  draw _ := .zero
  isConflict := Failure.isConflict
  body _ := Work.query 1

/-- Somebody else has the account, so the body waits. -/
def occupied : List (Beat Decimal) :=
  [.others [.start, .call 1 (.request (.query 1))], .poll 0 false []]

end Course

end RowLedger
