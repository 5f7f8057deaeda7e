import RowLedger.Proofs.Aftermath
import RowLedger.Proofs.Tasks
import RowLedger.Retry.Course

/-!
# Attempts among others

What the body of a retried call does in one transaction, with others about. A
body that only asks for rows is followed through the events that it brings
about (`Work.RanTo`). It ends in a commit, or it fails, stops or crashes without
one. That it can be followed event by event rests on one thing: whenever its
transaction waits, it waits for what the body stands at (`Store.Stands`).

Commits and rollbacks may be taken by a planned fault. Then the store sees
nothing of them.

## Main definitions

* `Work.OnlyAsks`: Work that leaves the end of its transaction to others.
* `Store.Stands`: A transaction waits for what its work stands at.
* `Work.RanTo`: How work that only asks has run.
* `RetryCall.standsAt?`: What is open in a call.
* `RetryCall.value?`: What a call has returned.

## Theorems

* `step_asking`: To ask is the event behind it.
* `commit_seen`, `rollback_seen`: What the store sees of an end.
* `ran_amid`: Work that only asks, run among others.
* `attemptEnded_error`, `attemptFrom_quiet`: Between two attempts nothing is
  open.
-/

namespace RowLedger

/-- Work that asks for rows and leaves the end of its transaction to others. -/
def Work.OnlyAsks {α : Type} : Work α → Prop
  | .done _ => True
  | .request _ next => ∀ answer, (next answer).OnlyAsks
  | .commit _ => False
  | .rollback _ => False
  | .pause _ next => next.OnlyAsks
  | .tell _ next => next.OnlyAsks
  | .note _ next => next.OnlyAsks
  | .crash => True

namespace Work

variable {α β : Type}

theorem onlyAsks_bind {w : Work α} {f : α → Work β} (h : w.OnlyAsks) (hf : ∀ a, (f a).OnlyAsks) :
    (w.bind f).OnlyAsks := by
  rw [bind]
  induction w with
  | done outcome =>
      cases outcome with
      | ok a => exact hf a
      | error e => trivial
  | request r next ih => exact fun answer => ih answer (h answer)
  | commit next => exact absurd h id
  | rollback next => exact absurd h id
  | pause millis next ih => exact ih h
  | tell notice next ih => exact ih h
  | note n next ih => exact ih h
  | crash => trivial

theorem onlyAsks_ask (r : Request) : (ask r).OnlyAsks := by
  intro answer
  cases answer with
  | ok amount => trivial
  | error fault => trivial

theorem onlyAsks_update (row : AccountId) (delta : Decimal) : (update row delta).OnlyAsks :=
  onlyAsks_bind (onlyAsks_ask _) fun _ => trivial

end Work

theorem Event.not_mine_of_around {mine : TxId} {events : List Event} :
    ∀ e ∈ Event.around (some mine) events, e.tx? ≠ some mine := by
  intro e he htx
  have := (List.mem_filter.1 he).2
  simp [htx] at this

namespace Store

variable {α : Type} {s : Store} {tx : TxId}

theorem wait?_abandon (s : Store) (tx : TxId) : (s.abandon tx).wait? tx = none := by
  rw [abandon]
  cases hlive : s.live.get? tx with
  | none => exact wait?_of_ended hlive
  | some t => exact wait?_put _ _ _ _

theorem asking_ne_commit (s : Store) (tx : TxId) (r : Request) :
    s.asking tx r ≠ .call tx .commit := by
  rw [asking]
  split
  · simp
  · simp

/-- To ask is the event behind it. -/
theorem step_asking {r : Request} (hle : tx ≤ s.begun) :
    (s.step (s.asking tx r)).2 = (s.ask tx r).2 := by
  cases hw : s.wait? tx with
  | none =>
      have hblocked : s.isBlocked tx = false := by
        rw [isBlocked, hw]
        rfl
      rw [asking, ask, hblocked, if_neg Bool.false_ne_true, if_neg Bool.false_ne_true,
        step_call_of_unblocked hle hw]
      rfl
  | some w =>
      have hblocked : s.isBlocked tx = true := by
        rw [isBlocked, hw]
        rfl
      rw [asking, ask, hblocked, if_pos rfl, if_pos rfl, step, hw]
      rcases w with ⟨r', woken⟩
      cases woken with
      | true => rfl
      | false =>
          -- A poll before the call is woken does nothing, whichever way it is written down.
          rcases wait?_eq_some_iff.1 hw with ⟨t, hlive, hb⟩
          rw [poll, hlive]
          simp only [hb]

/-- The transaction waits for nothing but the request that its work stands at. -/
structure Stands (s : Store) (tx : TxId) (w : Work α) : Prop where
  consistent : s.Consistent
  begun : tx ≤ s.begun
  standing : ∀ wait, s.wait? tx = some wait → ∃ next, w = .request wait.request next

variable {w : Work α}

theorem Stands.asked (h : s.Stands tx w) {r : Request}
    {next : Except StoreFault Decimal → Work α} (hwork : w = .request r next) :
    ∀ wait, s.wait? tx = some wait → wait.request = r := by
  intro wait hwait
  rcases h.standing wait hwait with ⟨next', hwork'⟩
  rw [hwork, Work.request.injEq] at hwork'
  exact hwork'.1.symm

theorem Stands.idle (h : s.Stands tx w) (hwork : ∀ r next, w ≠ .request r next) :
    s.wait? tx = none := by
  cases hwait : s.wait? tx with
  | none => rfl
  | some wait =>
      rcases h.standing wait hwait with ⟨next, hrequest⟩
      exact absurd hrequest (hwork _ next)

theorem stands_of_idle (hcons : s.Consistent) (hle : tx ≤ s.begun) (hidle : s.wait? tx = none)
    (w : Work α) : s.Stands tx w := by
  refine ⟨hcons, hle, ?_⟩
  intro wait hwait
  rw [hidle] at hwait
  simp at hwait

/-- Work that stands at no request goes on. -/
theorem Stands.goes (h : s.Stands tx w) (hwork : ∀ r next, w ≠ .request r next) (w' : Work α) :
    s.Stands tx w' :=
  stands_of_idle h.consistent h.begun (h.idle hwork) w'

/-- The others do not change what a transaction waits for. -/
theorem stands_others (h : s.Stands tx w) {events : List Event}
    (hothers : ∀ e ∈ events, e.tx? ≠ some tx) : (s.after events).Stands tx w := by
  refine after_induction (P := fun s => s.Stands tx w) events s h ?_
  intro s' e he hs
  refine ⟨consistent_step hs.consistent e, Nat.le_trans hs.begun (begun_step_le s' e), ?_⟩
  intro wait hwait
  rcases wait?_step_other hs.begun (hothers e he) hwait with ⟨wait₀, hwait₀, hsame⟩
  exact hsame ▸ hs.standing wait₀ hwait₀

end Store

namespace Service

variable (s : Service) (tx : TxId)

/-- A commit is taken by a planned fault, or the store sees it. -/
theorem commit_seen :
    (∃ fault, (s.commit tx).1 = .error fault ∧ (s.commit tx).2.store = s.store ∧
        s.commitSeen tx = []) ∨
      ((s.commit tx).1 = (s.store.commit tx).1.mapError Refusal.toFault ∧
        (s.commit tx).2.store = (s.store.commit tx).2 ∧ s.commitSeen tx = [.call tx .commit]) := by
  rcases hresult : s.store.commit tx with ⟨result, store⟩
  rw [commit, commitSeen]
  cases hplan : s.plan.commits with
  | nil =>
      simp only [hresult]
      cases result with
      | error reason => exact Or.inr ⟨rfl, rfl, trivial⟩
      | ok => exact Or.inr ⟨rfl, rfl, trivial⟩
  | cons planned rest =>
      cases planned with
      | some fault => exact Or.inl ⟨fault, rfl, rfl, rfl⟩
      | none =>
          simp only [hresult]
          cases result with
          | error reason => exact Or.inr ⟨rfl, rfl, trivial⟩
          | ok => exact Or.inr ⟨rfl, rfl, trivial⟩

/-- A rollback is taken by a planned fault, or the store sees it. -/
theorem rollback_seen :
    ((s.rollback tx).2.store = s.store ∧ s.rollbackSeen tx = []) ∨
      ((s.rollback tx).2.store = s.store.release tx ∧
        s.rollbackSeen tx = [.call tx .rollback]) := by
  rw [rollback, rollbackSeen]
  cases hplan : s.plan.rollbacks with
  | nil => exact Or.inr ⟨rfl, rfl⟩
  | cons planned rest =>
      cases planned with
      | some fault => exact Or.inl ⟨rfl, rfl⟩
      | none => exact Or.inr ⟨rfl, rfl⟩

theorem commit_notMem_rollbackSeen : Event.call tx .commit ∉ s.rollbackSeen tx := by
  rw [rollbackSeen]
  split
  · simp
  · simp

/-- A rollback of a transaction that does not wait is what the store sees of it. -/
theorem rollback_after (hle : tx ≤ s.store.begun) (hidle : s.store.wait? tx = none) :
    (s.rollback tx).2.store = s.store.after (s.rollbackSeen tx) := by
  rcases s.rollback_seen tx with ⟨hstore, hseen⟩ | ⟨hstore, hseen⟩
  · rw [hstore, hseen, Store.after_nil]
  · rw [hstore, hseen, Store.after_cons, Store.after_nil,
      Store.step_call_of_unblocked hle hidle]
    rfl

end Service

namespace Work

variable {α : Type} {tx : TxId}

/-- How work that only asks has run in a store, and what it stands at. -/
inductive RanTo (tx : TxId) (s : Store) (events : List Event) : Progress α → Prop where
  | committed {before : List Event} {a : α} (hevents : events = before ++ [.call tx .commit])
      (hbefore : tx ∉ commitOrder (s.answers before))
      (hdone : ((s.after before).step (.call tx .commit)).1 = some ⟨tx, .commit, .done⟩) :
      RanTo tx s events (.ended (.ok a))
  | failed {e : Failure} (hnot : tx ∉ commitOrder (s.answers events)) :
      RanTo tx s events (.ended (.error e))
  | waiting {r : Request} {next : Except StoreFault Decimal → Work α} {w : Work α}
      (hnot : tx ∉ commitOrder (s.answers events)) (honly : w.OnlyAsks)
      (hwork : w.concluded = .request r next) (hstands : (s.after events).Stands tx w.concluded) :
      RanTo tx s events (.blocked r next)
  | paused {millis : Nat} {w : Work α} (hnot : tx ∉ commitOrder (s.answers events))
      (honly : w.OnlyAsks) (hstands : (s.after events).Stands tx w.concluded) :
      RanTo tx s events (.pausing millis w.concluded)
  | crashed (hnot : tx ∉ commitOrder (s.answers events)) : RanTo tx s events .crashed

/-- Something that is no commit, and then the run. -/
theorem ranTo_append {s : Store} {first events : List Event} {progress : Progress α}
    (hfirst : Event.call tx .commit ∉ first) (h : RanTo tx (s.after first) events progress) :
    RanTo tx s (first ++ events) progress := by
  have hnone : tx ∉ commitOrder (s.answers first) := Store.uncommitted_of_not_mem hfirst
  cases h with
  | committed hevents hbefore hdone =>
      refine .committed (by rw [hevents, List.append_assoc])
        (Store.uncommitted_append hnone hbefore) ?_
      rw [Store.after_append]
      exact hdone
  | failed hnot => exact .failed (Store.uncommitted_append hnone hnot)
  | waiting hnot honly hwork hstands =>
      refine .waiting (Store.uncommitted_append hnone hnot) honly hwork ?_
      rw [Store.after_append]
      exact hstands
  | paused hnot honly hstands =>
      refine .paused (Store.uncommitted_append hnone hnot) honly ?_
      rw [Store.after_append]
      exact hstands
  | crashed hnot => exact .crashed (Store.uncommitted_append hnone hnot)

/-- A failure is concluded by a rollback, and stays what it is. -/
theorem run_conclude_error (tx : TxId) (e : Failure) (s : Service) :
    ∃ s', (conclude (.error e) : Work α).run tx s = (.ended (.error e), s') ∧
      s'.store = (s.rollback tx).2.store := by
  rw [conclude, run]
  rcases s.rollback tx with ⟨answer, s'⟩
  cases answer with
  | ok => exact ⟨s', rfl, rfl⟩
  | error fault => exact ⟨_, rfl, rfl⟩

/-- The end of a transaction whose work has an outcome. -/
theorem ran_conclude {s : Service} {outcome : Except Failure α} (company : List (List Event))
    (hstands : s.store.Stands tx (conclude outcome)) :
    ((conclude outcome).amid tx company s).2.2.store =
        s.store.after ((conclude outcome).amid tx company s).1 ∧
      RanTo tx s.store ((conclude outcome).amid tx company s).1
        ((conclude outcome).amid tx company s).2.1 := by
  set others := Event.around (some tx) (company.headD []) with hothers
  have hnot : Event.call tx .commit ∉ others := fun hmem =>
    Event.not_mine_of_around _ hmem rfl
  have hstands' : (s.happen others).store.Stands tx (conclude outcome) :=
    Store.stands_others hstands Event.not_mine_of_around
  have hafter : (s.happen others).store = s.store.after others := rfl
  cases outcome with
  | error e =>
      have hidle := hstands'.idle (by simp [conclude])
      have hrolled := Service.rollback_after _ tx hstands'.begun hidle
      have hnone := Service.commit_notMem_rollbackSeen (s.happen others) tx
      have hran : RanTo (α := α) tx s.store (others ++ (s.happen others).rollbackSeen tx)
          (.ended (.error e)) := ranTo_append hnot (.failed (Store.uncommitted_of_not_mem hnone))
      have hstore : ((s.happen others).rollback tx).2.store =
          s.store.after (others ++ (s.happen others).rollbackSeen tx) := by
        rw [hrolled, Store.after_append, hafter]
      simp only [conclude, amid, ← hothers]
      -- Whether the rollback was taken by a fault or not, the failure stays what it is.
      cases ((s.happen others).rollback tx).1 with
      | ok =>
          simp only [amid, List.append_nil]
          exact ⟨hstore, hran⟩
      | error fault =>
          simp only [amid, List.append_nil]
          exact ⟨hstore, hran⟩
  | ok a =>
      have hidle := hstands'.idle (by simp [conclude])
      have hstep : (s.happen others).store.step (.call tx .commit) =
          (some ⟨tx, .commit, .ofResult ((s.happen others).store.commit tx).1⟩,
            ((s.happen others).store.commit tx).2) := by
        have hfree : ((s.happen others).store.isBlocked tx ||
            decide ((s.happen others).store.begun < tx)) = false := by
          rw [Store.isBlocked, hidle, Option.isSome_none, Bool.false_or, decide_eq_false_iff_not]
          exact Nat.not_lt.2 hstands'.begun
        rw [Store.step, hfree]
        rfl
      simp only [conclude, amid, ← hothers]
      rcases (s.happen others).commit_seen tx with
        ⟨fault, hanswer, hstore, hseen⟩ | ⟨hanswer, hstore, hseen⟩
      · simp only [hanswer, hseen, amid, List.append_nil]
        exact ⟨hstore, .failed (Store.uncommitted_of_not_mem hnot)⟩
      · have hafter' : ((s.happen others).commit tx).2.store =
            s.store.after (others ++ [.call tx .commit]) := by
          rw [hstore, Store.after_append, Store.after_cons, Store.after_nil, ← hafter, hstep]
        simp only [hanswer, hseen]
        cases hresult : ((s.happen others).store.commit tx).1 with
        | ok =>
            simp only [Except.mapError, amid, List.append_nil]
            refine ⟨hafter', .committed rfl (Store.uncommitted_of_not_mem hnot) ?_⟩
            rw [← hafter, hstep, hresult]
            rfl
        | error reason =>
            simp only [Except.mapError, amid, List.append_nil]
            refine ⟨hafter', ranTo_append hnot (.failed ?_)⟩
            rw [Store.answers, Store.answers, ← hafter, hstep, hresult, mem_commitOrder]
            simp [Outcome.ofResult]

-- Induction on the body, not on what it is concluded to: the end of its transaction is a case of
-- its own then.
/-- Work that only asks, run among others. -/
theorem ran_amid {w : Work α} {s : Service} (company : List (List Event)) (honly : w.OnlyAsks)
    (hstands : s.store.Stands tx w.concluded) :
    (w.concluded.amid tx company s).2.2.store =
        s.store.after (w.concluded.amid tx company s).1 ∧
      RanTo tx s.store (w.concluded.amid tx company s).1 (w.concluded.amid tx company s).2.1 := by
  induction w generalizing company s with
  | done outcome => exact ran_conclude company hstands
  | request r next ih =>
      set others := Event.around (some tx) (company.headD []) with hothers
      have hnot : Event.call tx .commit ∉ others ++ [(s.happen others).store.asking tx r] := by
        rw [List.mem_append, List.mem_singleton, not_or]
        exact ⟨fun hmem => Event.not_mine_of_around _ hmem rfl,
          fun heq => Store.asking_ne_commit _ tx r heq.symm⟩
      have hstands' : (s.happen others).store.Stands tx (request r next).concluded :=
        Store.stands_others hstands Event.not_mine_of_around
      have hasked := hstands'.asked (r := r) rfl
      have hafter : ((s.happen others).request tx r).2.store =
          s.store.after (others ++ [(s.happen others).store.asking tx r]) := by
        rw [Service.request_store, ← Store.step_asking hstands'.begun, Store.after_append,
          Store.after_cons, Store.after_nil]
        rfl
      have hcons : ((s.happen others).request tx r).2.store.Consistent := by
        rw [hafter]
        exact Store.consistent_after hstands.consistent _
      have hle : tx ≤ ((s.happen others).request tx r).2.store.begun := by
        rw [hafter]
        exact Nat.le_trans hstands.begun (Store.begun_after_le _ _)
      have hanswer := Service.request_answer (s.happen others) tx r
      have hstore := Service.request_store (s.happen others) tx r
      rw [concluded, settle, amid]
      simp only [← hothers]
      rcases hrequest : (s.happen others).request tx r with ⟨answer, s'⟩
      rw [hrequest] at hafter hcons hle hanswer hstore
      simp only at hafter hcons hle hanswer hstore
      cases answer with
      | none =>
          refine ⟨hafter, .waiting (Store.uncommitted_of_not_mem hnot) honly rfl ?_⟩
          rw [← hafter]
          refine ⟨hcons, hle, ?_⟩
          intro wait hwait
          rw [hstore] at hwait
          exact ⟨_, by rw [Store.wait?_of_waiting hstands'.consistent hasked hwait]; rfl⟩
      | some answer =>
          have hnotWaiting : ((s.happen others).store.ask tx r).1 ≠ .waiting := by
            intro hwaiting
            rw [hwaiting] at hanswer
            simp [Reply.toAnswer] at hanswer
          have hidle : s'.store.wait? tx = none := by
            rw [hstore]
            exact Store.wait?_of_answered hstands'.consistent hasked hnotWaiting
          have hnext := ih answer company.tail (honly answer)
            (Store.stands_of_idle hcons hle hidle _)
          have hevents : others ++ (s.happen others).store.asking tx r ::
              ((next answer).concluded.amid tx company.tail s').1 =
              (others ++ [(s.happen others).store.asking tx r]) ++
              ((next answer).concluded.amid tx company.tail s').1 := by
            rw [List.append_assoc]
            rfl
          simp only
          change ((next answer).concluded.amid tx company.tail s').2.2.store =
              s.store.after (others ++ (s.happen others).store.asking tx r ::
                ((next answer).concluded.amid tx company.tail s').1) ∧
            RanTo tx s.store (others ++ (s.happen others).store.asking tx r ::
                ((next answer).concluded.amid tx company.tail s').1)
              ((next answer).concluded.amid tx company.tail s').2.1
          rw [hevents]
          refine ⟨?_, ranTo_append hnot ?_⟩
          · rw [hnext.1, Store.after_append, ← hafter]
          · rw [← hafter]
            exact hnext.2
  | commit next => exact absurd honly id
  | rollback next => exact absurd honly id
  | pause millis next =>
      refine ⟨rfl, .paused (w := next) (Store.uncommitted_of_not_mem ?_) honly ?_⟩
      · simp [concluded, settle, amid]
      · exact hstands.goes (by simp [concluded, settle]) _
  | tell notice next ih => exact ih company honly (hstands.goes (by simp [concluded, settle]) _)
  | note n next ih => exact ih company honly (hstands.goes (by simp [concluded, settle]) _)
  | crash =>
      exact ⟨rfl, .crashed (Store.uncommitted_of_not_mem (by simp [concluded, settle, amid]))⟩

end Work

namespace RetryCall

variable {α : Type}

/-- The transaction that is open in a call, and the work that the call stands at. -/
def standsAt? (c : RetryCall α) : Option (TxId × Work α) :=
  match c.phase with
  | .blocked tx r next => some (tx, .request r next)
  | .pausing tx _ next => some (tx, next)
  | _ => none

/-- The value that the call has returned. -/
def value? (c : RetryCall α) : Option α :=
  match c.phase with
  | .over (.returned (.ok a)) => some a
  | _ => none

def succeeded (c : RetryCall α) : Bool := c.value?.isSome

theorem succeeded_eq_false_iff {c : RetryCall α} : c.succeeded = false ↔ c.value? = none := by
  rw [succeeded, Option.isSome_eq_false_iff, Option.isNone_iff_eq_none]

theorem openTx?_eq (c : RetryCall α) : c.openTx? = c.standsAt?.map (·.1) := by
  rw [openTx?, standsAt?]
  cases c.phase with
  | blocked => rfl
  | pausing => rfl
  | beginning => rfl
  | sleeping => rfl
  | «over» => rfl

theorem openTx?_of_standsAt {c : RetryCall α} (h : c.standsAt? = none) : c.openTx? = none := by
  rw [openTx?_eq, h]
  rfl

/-- A call that is over has nothing open. -/
theorem openTx?_of_isOver {c : RetryCall α} (h : c.isOver = true) : c.openTx? = none := by
  rw [isOver] at h
  rw [openTx?]
  split at h
  · rename_i hphase
    rw [hphase]
  · simp at h

/-- A call that has something open has not returned a value. -/
theorem succeeded_of_openTx {c : RetryCall α} {tx : TxId} (h : c.openTx? = some tx) :
    c.succeeded = false := by
  rw [succeeded, value?]
  split
  · rename_i hphase
    simp [openTx?, hphase] at h
  · rfl

variable (rules : RetryRules α) (c : RetryCall α) (b : Bench)

/-- An attempt that has failed leaves nothing open and the store as it is. -/
theorem attemptEnded_error (e : Failure) :
    (c.attemptEnded rules (.error e) b).2.service.store = b.service.store ∧
      (c.attemptEnded rules (.error e) b).1.standsAt? = none ∧
      (c.attemptEnded rules (.error e) b).1.succeeded = false := by
  rw [attemptEnded]
  by_cases hconflict : rules.isConflict e = true
  · by_cases hlast : rules.backoff.retries ≤ c.attempt
    · simp only [if_pos hconflict, if_pos hlast]
      exact ⟨rfl, rfl, rfl⟩
    · simp only [if_pos hconflict, if_neg hlast]
      exact ⟨rfl, rfl, rfl⟩
  · simp only [if_neg hconflict]
    exact ⟨trivial, rfl, rfl⟩

/-- An attempt that is to begin has nothing open yet and leaves the store as it is. -/
theorem attemptFrom_quiet (attempt invoked : Nat) :
    (attemptFrom (α := α) attempt invoked b).2.service.store = b.service.store ∧
      (attemptFrom (α := α) attempt invoked b).1.standsAt? = none ∧
      (attemptFrom (α := α) attempt invoked b).1.succeeded = false := by
  rw [attemptFrom, Service.takeBeginFault]
  cases b.service.plan.begins with
  | nil => exact ⟨rfl, rfl, rfl⟩
  | cons fault rest => exact ⟨rfl, rfl, rfl⟩

theorem attemptEnded_ok (a : α) :
    (c.attemptEnded rules (.ok a) b).2.service.store = b.service.store ∧
      (c.attemptEnded rules (.ok a) b).1.standsAt? = none ∧
      (c.attemptEnded rules (.ok a) b).1.succeeded = true :=
  ⟨rfl, rfl, rfl⟩

end RetryCall

end RowLedger
