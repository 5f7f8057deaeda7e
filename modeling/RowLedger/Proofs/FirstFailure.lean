import RowLedger.Proofs.Contract
import RowLedger.Proofs.CrossingTurns
import RowLedger.Proofs.StandoffClock

/-!
# The first failure

A unit of work that stops at the first thing the store refuses, rolls back and
ends with that refusal, and that ends with a value only when its commit is made
(`Work.Heeds`). In any traffic such work returns exactly what it has met: a
value if it has committed, and otherwise the one refusal (`told_of_returned`).

Two transfers that cross are two units of work of this kind, and what is returned
of the pair is the failure of the forward side whenever there is one, whatever
has become of the backward side. So a cycle that was detected is always returned
as a failure, and as a conflict if it was the forward side that closed it. If
the backward side closed it, the forward side is the survivor, and when the
survivor then cannot pay it is this failure that is returned, and no conflict.

## Main definitions

* `Work.Settles`: Nothing is left to decide.
* `Work.Heeds`: Work that ends with its first refusal.
* `Work.Faithful`: An outcome that tells what was met.
* `Traffic.AtSomeTurn`: What a task stands at in one of its turns.
* `Traffic.CommittedIn`, `Traffic.RefusedIn`: What a task meets in a run.
* `Crossing.ReturnedIn`: Two sides that have returned in some traffic.
* `Crossing.Tells`: What is returned of them, in terms of what they have met.

## Theorems

* `heeds_concluded`, `heeds_crossing`: Bodies that stop at a refusal.
* `told_of_returned`: A task returns what it has met.
* `tells_of_faithful`: The outcome of two sides that return what they have met.
* `first_failure`: What is returned of two transfers that cross.
* `conflict_hidden`: A detected cycle that is not returned as a conflict.
-/

namespace RowLedger

namespace Work

variable {α β : Type}

/-- Nothing is left to decide: whatever the rollback is answered, the work ends with the
outcome. -/
def Settles (outcome : Except Failure α) : Work α → Prop
  | .done o => o = outcome
  | .rollback next => ∀ answer, (next answer).Settles outcome
  | .pause _ next => next.Settles outcome
  | .tell _ next => next.Settles outcome
  | .note _ next => next.Settles outcome
  | .request .. | .commit _ | .crash => False

/-- Work that ends with its first refusal, and with a value only if its commit is made. -/
def Heeds : Work Unit → Prop
  | .request _ next =>
    (∀ fault, (next (.error fault)).Settles (.error (.ofStoreFault fault))) ∧
      ∀ amount, (next (.ok amount)).Heeds
  | .commit next =>
    (∀ fault, (next (.error fault)).Settles (.error (.ofStoreFault fault))) ∧
      (next (.ok ())).Settles (.ok ())
  | .pause _ next => next.Heeds
  | .tell _ next => next.Heeds
  | .note _ next => next.Heeds
  | .done _ | .rollback _ | .crash => False

/-- A body that stops at its first refusal and leaves the end of its transaction to others. -/
def Yields : Work α → Prop
  | .done outcome => ∃ a, outcome = .ok a
  | .request _ next =>
    (∀ fault, next (.error fault) = fail (.ofStoreFault fault)) ∧
      ∀ amount, (next (.ok amount)).Yields
  | .pause _ next => next.Yields
  | .tell _ next => next.Yields
  | .note _ next => next.Yields
  | .commit _ | .rollback _ | .crash => False

section Bodies

theorem yields_pure (a : α) : (pure a : Work α).Yields := ⟨a, rfl⟩

theorem yields_ask (r : Request) : (ask r).Yields :=
  ⟨fun _ => rfl, fun amount => ⟨amount, rfl⟩⟩

theorem yields_bind {w : Work α} {f : α → Work β} (hw : w.Yields) (hf : ∀ a, (f a).Yields) :
    (w >>= f).Yields := by
  change (w.bind f).Yields
  induction w with
  | done outcome =>
      rcases hw with ⟨a, rfl⟩
      exact hf a
  | request r next ih =>
      refine ⟨fun fault => ?_, fun amount => ih (.ok amount) (hw.2 amount)⟩
      beta_reduce
      rw [hw.1 fault]
      rfl
  | pause millis next ih => exact ih hw
  | tell notice next ih => exact ih hw
  | note n next ih => exact ih hw
  | commit | rollback | crash => exact hw.elim

theorem yields_update (row : AccountId) (delta : Decimal) : (update row delta).Yields :=
  yields_bind (yields_ask _) fun _ => yields_pure ()

theorem yields_wait (millis : Nat) : (wait millis).Yields := by
  rw [wait]
  split
  · exact yields_pure ()
  · exact yields_pure ()

/-- A body that stops at its first refusal, with its transaction ended by its outcome. -/
theorem heeds_concluded {w : Work Unit} (hw : w.Yields) : w.concluded.Heeds := by
  rw [concluded]
  induction w with
  | done outcome =>
      rcases hw with ⟨_, rfl⟩
      exact ⟨fun _ => rfl, rfl⟩
  | request r next ih =>
      refine ⟨fun fault => ?_, fun amount => ih (.ok amount) (hw.2 amount)⟩
      beta_reduce
      rw [hw.1 fault]
      -- Whether the rollback succeeds or fails, the refusal is what counts.
      rintro (_ | _)
      · exact rfl
      · exact rfl
  | pause millis next ih => exact ih hw
  | tell notice next ih => exact ih hw
  | note n next ih => exact ih hw
  | commit | rollback | crash => exact hw.elim

theorem heeds_crossing (first second : AccountId) (amount : Decimal) (pause : Nat) :
    (crossing first second amount pause).Heeds :=
  heeds_concluded <|
    yields_bind (yields_ask _) fun _ =>
    yields_bind (yields_wait pause) fun _ =>
    yields_bind (yields_ask _) fun _ =>
    yields_bind (yields_update ..) fun _ => yields_update ..

end Bodies

/-- The store makes the commit that work calls for. -/
inductive Committed (s : Store) (tx : TxId) : Work α → Prop where
  | made {next : Except StoreFault Unit → Work α} (hcommit : (s.commit tx).1 = .ok ()) :
      Committed s tx (.commit next)

/-- The store refuses what work calls for. -/
inductive Refused (s : Store) (tx : TxId) (reason : Refusal) : Work α → Prop where
  | asking {r : Request} {next : Except StoreFault Decimal → Work α}
      (hask : (s.ask tx r).1 = .refused reason) : Refused s tx reason (.request r next)
  | committing {next : Except StoreFault Unit → Work α}
      (hcommit : (s.commit tx).1 = .error reason) : Refused s tx reason (.commit next)

section Calls

variable {s : Store} {tx : TxId} {reason : Refusal}

theorem committed_commit_iff {next : Except StoreFault Unit → Work α} :
    (Work.commit next).Committed s tx ↔ (s.commit tx).1 = .ok () :=
  ⟨fun ⟨h⟩ => h, fun h => ⟨h⟩⟩

theorem refused_request_iff {r : Request} {next : Except StoreFault Decimal → Work α} :
    (Work.request r next).Refused s tx reason ↔ (s.ask tx r).1 = .refused reason :=
  ⟨fun (.asking h) => h, .asking⟩

theorem refused_commit_iff {next : Except StoreFault Unit → Work α} :
    (Work.commit next).Refused s tx reason ↔ (s.commit tx).1 = .error reason :=
  ⟨fun (.committing h) => h, .committing⟩

end Calls

/-- An outcome tells what was met: a commit that was made, or a refusal. -/
structure Faithful (committed : Prop) (refused : Refusal → Prop) (outcome : Except Failure Unit) :
    Prop where
  ok_iff : outcome = .ok () ↔ committed
  error_iff : ∀ e, outcome = .error e ↔
    ∃ reason, refused reason ∧ e = .ofStoreFault reason.toFault

/-- What is left of work reflects what it has met: nothing that ends it so far, or the end that it
is going to tell. -/
inductive Reflects (committed : Prop) (refused : Refusal → Prop) : Work Unit → Prop where
  | heeding {w : Work Unit} (hheeds : w.Heeds) (hcommitted : ¬ committed)
      (hrefused : ∀ reason, ¬ refused reason) : Reflects committed refused w
  | settled {w : Work Unit} {outcome : Except Failure Unit} (hsettles : w.Settles outcome)
      (hfaithful : Faithful committed refused outcome) : Reflects committed refused w

section Reflects

variable {committed committed' : Prop} {refused refused' : Refusal → Prop} {w w' : Work Unit}
  {s s' : Store} {tx : TxId}

namespace Faithful

variable {outcome : Except Failure Unit} {reason : Refusal} (h : Faithful committed refused outcome)
include h

theorem congr (hcommitted : committed' ↔ committed)
    (hrefused : ∀ reason, refused' reason ↔ refused reason) :
    Faithful committed' refused' outcome where
  ok_iff := h.ok_iff.trans hcommitted.symm
  error_iff e := (h.error_iff e).trans
    (exists_congr fun reason => and_congr_left' (hrefused reason).symm)

theorem eq_error (hrefused : refused reason) :
    outcome = .error (.ofStoreFault reason.toFault) :=
  (h.error_iff _).2 ⟨reason, hrefused, rfl⟩

/-- Who has committed has been refused nothing. -/
theorem not_refused (hok : outcome = .ok ()) : ¬ refused reason := by
  intro hrefused
  rw [h.eq_error hrefused] at hok
  cases hok

/-- A failure is a conflict if what was refused was refused for one. -/
theorem isConflict_iff {e : Failure} (he : outcome = .error e) :
    e.isConflict = true ↔ ∀ reason, refused reason → reason.isConflict = true := by
  rcases (h.error_iff e).1 he with ⟨reason, hrefused, rfl⟩
  rw [Refusal.isConflict_failure]
  refine ⟨fun hconflict other hother => ?_, fun hall => hall reason hrefused⟩
  rw [h.eq_error hother, Except.error.injEq] at he
  rw [← Refusal.isConflict_failure, he, Refusal.isConflict_failure]
  exact hconflict

end Faithful

theorem reflects_congr (h : Reflects committed refused w) (hcommitted : committed' ↔ committed)
    (hrefused : ∀ reason, refused' reason ↔ refused reason) : Reflects committed' refused' w := by
  cases h with
  | heeding hheeds hnever hnone =>
      exact .heeding hheeds (mt hcommitted.1 hnever)
        fun reason => mt (hrefused reason).1 (hnone reason)
  | settled hsettles hfaithful =>
      exact .settled hsettles (hfaithful.congr hcommitted hrefused)

/-- Work that has just been refused is going to tell the refusal. -/
theorem reflects_refused {reason : Refusal} (hcommitted : ¬ committed)
    (hrefused : ∀ other, refused other ↔ other = reason)
    (hsettles : w.Settles (.error (.ofStoreFault reason.toFault))) :
    Reflects committed refused w := by
  refine .settled hsettles ⟨⟨by rintro ⟨⟩, fun h => absurd h hcommitted⟩, fun e => ⟨?_, ?_⟩⟩
  · rintro ⟨⟩
    exact ⟨reason, (hrefused reason).2 rfl, rfl⟩
  · rintro ⟨other, hother, rfl⟩
    rw [(hrefused other).1 hother]

/-- Work that has just committed is going to tell that it has. -/
theorem reflects_committed (hcommitted : committed) (hrefused : ∀ reason, ¬ refused reason)
    (hsettles : w.Settles (.ok ())) : Reflects committed refused w := by
  refine .settled hsettles ⟨⟨fun _ => hcommitted, fun _ => rfl⟩, fun e => ⟨by rintro ⟨⟩, ?_⟩⟩
  rintro ⟨reason, hreason, _⟩
  exact absurd hreason (hrefused reason)

/-- Work that has nothing left to decide calls for nothing that could be refused, and goes on
to its end. -/
theorem settles_moved {outcome : Except Failure Unit} (h : w.Settles outcome)
    (hmoved : w.Moved tx s (w', s')) :
    w'.Settles outcome ∧ ¬ w.Committed s tx ∧ ∀ reason, ¬ w.Refused s tx reason := by
  cases hmoved with
  | answered | waiting | committed | crashed => exact h.elim
  | rolledBack next => exact ⟨h _, by rintro ⟨⟩, by rintro _ ⟨⟩⟩
  | _ => exact ⟨h, by rintro ⟨⟩, by rintro _ ⟨⟩⟩

-- Only a request and a commit can be refused, and only a commit can be made. Whatever comes of
-- them first settles the end of the work.
/-- What is left of heeding work after a step reflects what it has met in that step. -/
theorem heeds_moved (h : w.Heeds) (hmoved : w.Moved tx s (w', s')) :
    Reflects (w.Committed s tx) (fun reason => w.Refused s tx reason) w' := by
  cases hmoved with
  | @answered r next answer hanswer =>
      cases hreply : (s.ask tx r).1 with
      | waiting => simp [hreply, Reply.toAnswer] at hanswer
      | served amount =>
          rw [hreply, Reply.toAnswer, Option.some.injEq] at hanswer
          subst hanswer
          refine .heeding (h.2 amount) (by rintro ⟨⟩) fun reason => ?_
          simp [refused_request_iff, hreply]
      | refused reason =>
          rw [hreply, Reply.toAnswer, Option.some.injEq] at hanswer
          subst hanswer
          refine reflects_refused (by rintro ⟨⟩) (fun other => ?_) (h.1 reason.toFault)
          rw [refused_request_iff, hreply, Reply.refused.injEq, eq_comm]
  | @waiting r next hwait =>
      refine .heeding h (by rintro ⟨⟩) fun reason => ?_
      simp [refused_request_iff, hwait]
  | committed next =>
      cases hcommit : (s.commit tx).1 with
      | ok =>
          refine reflects_committed ⟨hcommit⟩ (fun reason => ?_) h.2
          simp [refused_commit_iff, hcommit]
      | error reason =>
          refine reflects_refused ?_ (fun other => ?_) (h.1 reason.toFault)
          · simp [committed_commit_iff, hcommit]
          · rw [refused_commit_iff, hcommit, Except.error.injEq, eq_comm]
  | ended | rolledBack | crashed => exact h.elim
  | _ => exact .heeding h (by rintro ⟨⟩) (by rintro _ ⟨⟩)

/-- What is left of work after a step reflects what it has met in that step as well. -/
theorem reflects_moved (h : Reflects committed refused w) (hmoved : w.Moved tx s (w', s')) :
    Reflects (committed ∨ w.Committed s tx)
      (fun reason => refused reason ∨ w.Refused s tx reason) w' := by
  cases h with
  | heeding hheeds hcommitted hrefused =>
      exact reflects_congr (heeds_moved hheeds hmoved) (or_iff_right hcommitted)
        fun reason => or_iff_right (hrefused reason)
  | settled hsettles hfaithful =>
      rcases settles_moved hsettles hmoved with ⟨hsettles', hmade, hnew⟩
      exact .settled hsettles' (hfaithful.congr (or_iff_left hmade)
        fun reason => or_iff_left (hnew reason))

end Reflects

end Work

namespace Traffic

variable {ι : Type} {program : ι → Operation} {t : Traffic ι} {turn : Turn ι}
  {turns rest : List (Turn ι)} {tx : TxId} {P : Store → Work Unit → Prop}

/-- In one of its turns a task stands at work of a kind. -/
def AtSomeTurn (program : ι → Operation) (t : Traffic ι) (turns : List (Turn ι)) (tx : TxId)
    (P : Store → Work Unit → Prop) : Prop :=
  ∃ before rest task, turns = before ++ .advance tx :: rest ∧
    (t.after program before).tasks.get? tx = some task ∧
    P (t.after program before).store task.work

/-- The store makes the commit of a task. -/
def CommittedIn (program : ι → Operation) (t : Traffic ι) (turns : List (Turn ι))
    (tx : TxId) : Prop :=
  t.AtSomeTurn program turns tx fun s w => w.Committed s tx

/-- The store refuses what a task calls for. -/
def RefusedIn (program : ι → Operation) (t : Traffic ι) (turns : List (Turn ι)) (tx : TxId)
    (reason : Refusal) : Prop :=
  t.AtSomeTurn program turns tx fun s w => w.Refused s tx reason

section AtSomeTurn

theorem not_atSomeTurn_nil : ¬ t.AtSomeTurn program [] tx P := by
  rintro ⟨before, rest, _, hsplit, _⟩
  simp at hsplit

theorem atSomeTurn_cons : t.AtSomeTurn program (turn :: rest) tx P ↔
    (turn = .advance tx ∧ ∃ task, t.tasks.get? tx = some task ∧ P t.store task.work) ∨
      (t.step program turn).2.AtSomeTurn program rest tx P := by
  constructor
  · rintro ⟨before, rest', task, hsplit, htask, hP⟩
    cases before with
    | nil =>
        rw [List.nil_append, List.cons.injEq] at hsplit
        exact Or.inl ⟨hsplit.1, task, htask, hP⟩
    | cons first before =>
        rw [List.cons_append, List.cons.injEq] at hsplit
        rcases hsplit with ⟨rfl, hsplit⟩
        exact Or.inr ⟨before, rest', task, hsplit, htask, hP⟩
  · rintro (⟨rfl, task, htask, hP⟩ | ⟨before, rest', task, rfl, htask, hP⟩)
    · exact ⟨[], rest, task, rfl, htask, hP⟩
    · exact ⟨turn :: before, rest', task, rfl, htask, hP⟩

theorem atSomeTurn_append (first second : List (Turn ι)) :
    t.AtSomeTurn program (first ++ second) tx P ↔
      t.AtSomeTurn program first tx P ∨
        (t.after program first).AtSomeTurn program second tx P := by
  induction first generalizing t with
  | nil => exact (or_iff_right not_atSomeTurn_nil).symm
  | cons turn rest ih =>
      rw [List.cons_append, atSomeTurn_cons, atSomeTurn_cons, ih, or_assoc, after_cons]

theorem atSomeTurn_snoc : t.AtSomeTurn program (turns ++ [turn]) tx P ↔
    t.AtSomeTurn program turns tx P ∨ turn = .advance tx ∧
      ∃ task, (t.after program turns).tasks.get? tx = some task ∧
        P (t.after program turns).store task.work := by
  rw [atSomeTurn_append, atSomeTurn_cons, or_iff_left not_atSomeTurn_nil]

variable (h : t.Sound)
include h

/-- A task that takes a turn has begun. -/
theorem begun_of_atSomeTurn (hturn : t.AtSomeTurn program turns tx P) :
    tx ≤ (t.after program turns).store.begun := by
  rcases hturn with ⟨before, rest, task, rfl, htask, _⟩
  have hsound : (t.after program before).Sound := sound_after h before
  rw [after_append]
  exact Nat.le_trans (hsound.begun tx task htask) (begun_after_le hsound _)

/-- A task that is gone takes no turns. -/
theorem not_atSomeTurn_of_gone (hle : tx ≤ t.store.begun) (hgone : t.tasks.get? tx = none)
    (turns : List (Turn ι)) : ¬ t.AtSomeTurn program turns tx P := by
  induction turns generalizing t with
  | nil => exact not_atSomeTurn_nil
  | cons turn rest ih =>
      have hturned := turned program h.plan turn
      rw [atSomeTurn_cons, not_or]
      refine ⟨?_, ih (sound_step h turn) (Nat.le_trans hle (begun_turned_le h hturned))
        (gone_turned hturned hle hgone)⟩
      rintro ⟨_, task, htask, _⟩
      simp [hgone] at htask

/-- After its end a task takes no turns. -/
theorem atSomeTurn_of_done {task : Task ι} {outcome : Except Failure Unit}
    (htask : (t.after program turns).tasks.get? tx = some task) (hwork : task.work = .done outcome)
    (hP : ∀ s, ¬ P s (.done outcome)) (rest : List (Turn ι)) :
    t.AtSomeTurn program (turns ++ .advance tx :: rest) tx P ↔
      t.AtSomeTurn program turns tx P := by
  have hsound : (t.after program turns).Sound := sound_after h turns
  have hstep : ((t.after program turns).step program (.advance tx)).2 =
      (t.after program turns).close tx := by
    rw [step, htask]
    simp only [advance, hwork]
  rw [atSomeTurn_append, atSomeTurn_cons, hstep]
  refine or_iff_left (not_or.2 ⟨?_, ?_⟩)
  · rintro ⟨_, task', htask', hat⟩
    rw [htask, Option.some.injEq] at htask'
    rw [← htask', hwork] at hat
    exact hP _ hat
  · have hclosed : ((t.after program turns).close tx).Sound :=
      hstep ▸ sound_step hsound (.advance tx)
    refine not_atSomeTurn_of_gone hclosed ?_ ?_ rest
    · rw [close, store, Service.drop, Store.release_begun]
      exact hsound.begun tx task htask
    · rw [close, Table.get?_erase, if_pos rfl]

/-- A report of an outcome is made in a turn in which there is nothing left to do. -/
theorem atSomeTurn_of_report {label : ι} {outcome : Except Failure Unit}
    (hreport : .returned label (some tx) outcome ∈ t.reports program turns) :
    t.AtSomeTurn program turns tx fun _ w => w = .done outcome := by
  induction turns generalizing t with
  | nil => simp [reports] at hreport
  | cons turn rest ih =>
      rw [reports, List.mem_append] at hreport
      rw [atSomeTurn_cons]
      rcases hreport with hfirst | hlater
      · have hturned := turned program h.plan turn
        generalize t.step program turn = result at hturned hfirst
        cases hturned with
        | @returned tx' task outcome' htask hwork =>
            simp only [List.mem_singleton, Report.returned.injEq, Option.some.injEq] at hfirst
            rcases hfirst with ⟨rfl, rfl, rfl⟩
            exact Or.inl ⟨rfl, task, htask, hwork⟩
        | _ => simp at hfirst
      · exact Or.inr (ih (sound_step h turn) hlater)

end AtSomeTurn

/-- A task that is still there after a turn of its own has gone on. -/
theorem moved_of_advance (h : t.Sound) {task' : Task ι}
    (htask' : (t.step program (.advance tx)).2.tasks.get? tx = some task') :
    ∃ task s', t.tasks.get? tx = some task ∧
      task.work.Moved tx t.store (task'.work, s') := by
  cases htask : t.tasks.get? tx with
  | none => simp [step, htask] at htask'
  | some task =>
      have hclosed : (t.close tx).tasks.get? tx = none := by
        rw [close, Table.get?_erase, if_pos rfl]
      rw [step, htask] at htask'
      by_cases hdone : ∃ outcome, task.work = .done outcome
      · rcases hdone with ⟨outcome, hwork⟩
        simp [advance, hwork, hclosed] at htask'
      · by_cases hcrash : task.work = .crash
        · simp [advance, hcrash, hclosed] at htask'
        · have hadvance : t.advance tx task = _ :=
            advance_eq (fun outcome hwork => hdone ⟨outcome, hwork⟩) hcrash
          simp only [hadvance, Table.get?_insert, ↓reduceIte, Option.some.injEq] at htask'
          rw [← htask']
          exact ⟨task, _, rfl, Work.moved h.plan task.work⟩

section Heeding

variable (hheeds : ∀ label body, program label = .inTransaction body → body.Heeds)
include hheeds

-- Induction on the run. A turn of the task itself takes it one step further, and a turn of anybody
-- else neither changes what it has left to do nor counts among its turns.
/-- What a task has left to do reflects what it has met. -/
theorem reflects_after {s : Store} (hconsistent : s.Consistent) (turns : List (Turn ι))
    {task : Task ι} (htask : ((ofStore s).after program turns).tasks.get? tx = some task) :
    task.work.Reflects ((ofStore s).CommittedIn program turns tx)
      ((ofStore s).RefusedIn program turns tx) := by
  induction turns using List.reverseRecOn generalizing task with
  | nil => simp [ofStore] at htask
  | append_singleton turns turn ih =>
      have hsound : ((ofStore s).after program turns).Sound :=
        sound_after (sound_ofStore hconsistent) turns
      rw [after_append, after_cons, after_nil] at htask
      by_cases hadvance : turn = .advance tx
      · subst hadvance
        rcases moved_of_advance hsound htask with ⟨task₀, s', htask₀, hmoved⟩
        refine Work.reflects_congr (Work.reflects_moved (ih htask₀) hmoved) ?_ fun reason => ?_
        · rw [CommittedIn, atSomeTurn_snoc]
          simp [htask₀, CommittedIn]
        · rw [RefusedIn, atSomeTurn_snoc]
          simp [htask₀, RefusedIn]
      · have hsame : ∀ {P}, (ofStore s).AtSomeTurn program (turns ++ [turn]) tx P ↔
            (ofStore s).AtSomeTurn program turns tx P := by
          intro P
          rw [atSomeTurn_snoc]
          exact or_iff_left fun hc => hadvance hc.1
        have hafter := taskTurned (turned program hsound.plan turn) htask
        generalize (((ofStore s).after program turns).step program turn).2 = t' at hafter
        cases hafter with
        | still _ htask => exact Work.reflects_congr (ih htask) hsame fun _ => hsame
        | apart htask => exact Work.reflects_congr (ih htask) hsame fun _ => hsame
        | @launched label body _ hprogram _ htx hnew =>
            have hnever : ∀ {P},
                ¬ (ofStore s).AtSomeTurn program (turns ++ [.launch label]) tx P := by
              intro P hc
              have hle := begun_of_atSomeTurn (sound_ofStore hconsistent) (hsame.1 hc)
              exact absurd (htx ▸ hle) (Nat.not_succ_le_self _)
            rw [hnew]
            exact .heeding (hheeds label body hprogram) hnever fun _ => hnever
        | moved => exact absurd rfl hadvance

/-- Tasks that end with their first refusal return what they have met: a value if the store has made
their commit, and otherwise what it has refused. -/
theorem told_of_returned {s : Store} (hconsistent : s.Consistent) {label : ι}
    {outcome : Except Failure Unit}
    (hreport : .returned label (some tx) outcome ∈ (ofStore s).reports program turns) :
    Work.Faithful ((ofStore s).CommittedIn program turns tx)
      ((ofStore s).RefusedIn program turns tx) outcome := by
  have hsound : (ofStore s : Traffic ι).Sound := sound_ofStore hconsistent
  rcases atSomeTurn_of_report hsound hreport with ⟨before, rest, task, rfl, htask, hwork⟩
  have hreflects := reflects_after hheeds hconsistent before htask
  rw [hwork] at hreflects
  cases hreflects with
  | heeding hnever => exact hnever.elim
  | settled hsettles hfaithful =>
      obtain rfl := hsettles
      refine hfaithful.congr ?_ fun reason => ?_
      · exact atSomeTurn_of_done hsound htask hwork (by rintro _ ⟨⟩) rest
      · exact atSomeTurn_of_done hsound htask hwork (by rintro _ ⟨⟩) rest

end Heeding

end Traffic

namespace Crossing

variable {program : Direction → Operation} {t : Traffic Direction} {turns : List (Turn Direction)}
  {c : Crossing}

/-- Both sides have come to an end. -/
def Ended (c : Crossing) : Prop := ∀ d, ∃ outcome, (c.side d).progress = .ended outcome

/-- Both sides have returned in some traffic what they have come to. -/
structure ReturnedIn (program : Direction → Operation) (t : Traffic Direction)
    (turns : List (Turn Direction)) (c : Crossing) : Prop where
  ended : c.Ended
  told : ∀ d, .returned d (some (c.side d).tx) (c.side d).outcome ∈ t.reports program turns

/-- What is returned of two sides, in terms of what they have met. -/
structure Tells (program : Direction → Operation) (t : Traffic Direction)
    (turns : List (Turn Direction)) (c : Crossing) : Prop where
  ok_iff : c.outcome = .ok () ↔ ∀ d, t.CommittedIn program turns (c.side d).tx
  /-- A cycle that the forward side has closed is returned as a conflict. -/
  forward : ∀ reason text, reason.toFault = .conflict deadlockCode text →
    t.RefusedIn program turns c.forward.tx reason →
    ∃ e, c.outcome = .error e ∧ e.isConflict = true
  /-- A cycle that the backward side has closed is returned as a failure, and as a conflict unless
  the forward side has met a failure that is none. -/
  backward : ∀ reason text, reason.toFault = .conflict deadlockCode text →
    t.RefusedIn program turns c.backward.tx reason →
    ∃ e, c.outcome = .error e ∧ (e.isConflict = true ↔
      ∀ other, t.RefusedIn program turns c.forward.tx other → other.isConflict = true)

theorem heeds_operation (a b : AccountId) (forward backward : Decimal) (pause : Nat)
    (d : Direction) (body : Work Unit)
    (hprogram : operation a b forward backward pause d = .inTransaction body) : body.Heeds := by
  cases d with
  | forward =>
      cases hprogram
      exact Work.heeds_crossing ..
  | backward =>
      cases hprogram
      exact Work.heeds_crossing ..

theorem outcome_of_forward {e : Failure} (h : c.forward.outcome = .error e) :
    c.outcome = .error e := by
  rw [outcome, h]

theorem outcome_of_ok (h : c.forward.outcome = .ok ()) : c.outcome = c.backward.outcome := by
  rw [outcome, h]

-- The forward side has failed or it has committed, and in the second case it has been refused
-- nothing, so what is returned is up to the backward side.
/-- Two sides that tell what they have met. -/
theorem tells_of_faithful
    (hfaithful : ∀ d, Work.Faithful (t.CommittedIn program turns (c.side d).tx)
      (t.RefusedIn program turns (c.side d).tx) (c.side d).outcome) :
    Tells program t turns c := by
  have hf : Work.Faithful _ _ c.forward.outcome := hfaithful .forward
  have hg : Work.Faithful _ _ c.backward.outcome := hfaithful .backward
  have hconflict : ∀ {reason : Refusal} {text}, reason.toFault = .conflict deadlockCode text →
      (Failure.ofStoreFault reason.toFault).isConflict = true := by
    intro reason text hcode
    rw [hcode]
    rfl
  refine ⟨?_, fun reason text hcode hrefused => ?_, fun reason text hcode hrefused => ?_⟩
  · have hboth : (∀ d, t.CommittedIn program turns (c.side d).tx) ↔
        c.forward.outcome = .ok () ∧ c.backward.outcome = .ok () := by
      rw [hf.ok_iff, hg.ok_iff]
      refine ⟨fun h => ⟨h .forward, h .backward⟩, fun h d => ?_⟩
      cases d with
      | forward => exact h.1
      | backward => exact h.2
    rw [hboth]
    cases hforward : c.forward.outcome with
    | error e => simp [outcome_of_forward hforward]
    | ok => simp [outcome_of_ok hforward]
  · exact ⟨_, outcome_of_forward (hf.eq_error hrefused), hconflict hcode⟩
  · cases hforward : c.forward.outcome with
    | error e => exact ⟨e, outcome_of_forward hforward, hf.isConflict_iff hforward⟩
    | ok =>
        refine ⟨_, (outcome_of_ok hforward).trans (hg.eq_error hrefused), ?_⟩
        exact iff_of_true (hconflict hcode) fun other hother =>
          absurd hother (hf.not_refused hforward)

/-- Two sides that have returned tell what they have met. -/
theorem tells_of_returnedIn {s : Store} (hconsistent : s.Consistent) {a b : AccountId}
    {forward backward : Decimal} {pause : Nat}
    (h : ReturnedIn (operation a b forward backward pause) (.ofStore s) turns c) :
    Tells (operation a b forward backward pause) (.ofStore s) turns c :=
  tells_of_faithful fun d =>
    Traffic.told_of_returned (heeds_operation a b forward backward pause) hconsistent (h.told d)

theorem Mirrors.returnedIn (h : Mirrors program t turns c) (hended : c.Ended) :
    ReturnedIn program t turns c where
  ended := hended
  told d := by
    rcases hended d with ⟨outcome, houtcome⟩
    rw [CrossingSide.outcome, houtcome]
    exact h.told d outcome houtcome

/-- Two sides that are taken up in any order have returned when both have ended. -/
theorem exists_returnedIn {s : Store} (hconsistent : s.Consistent) (a b : AccountId)
    (forward backward : Decimal) (pause : Nat) (order : List Direction)
    (hended : (order.foldl resume (start a b forward backward pause (.ofStore s))).Ended) :
    ∃ turns, ReturnedIn (operation a b forward backward pause) (.ofStore s) turns
      (order.foldl resume (start a b forward backward pause (.ofStore s))) := by
  rcases mirrors_start hconsistent a b forward backward pause with ⟨turns, hstart⟩
  rcases mirrors_foldl hstart order with ⟨more, hmirrors⟩
  exact ⟨_, hmirrors.returnedIn hended⟩

/-- On the clock the sides end as they do when they are taken up in some order. -/
theorem run_sides (a b : AccountId) (forward backward : Decimal) (pause : Nat) (s : Service) :
    ∃ order : List Direction, ∀ d, (run a b forward backward pause s).1.side d =
      (order.foldl resume (start a b forward backward pause s)).side d := by
  rcases exists_order maxStops ⟨start a b forward backward pause s, 0,
    ((start a b forward backward pause s).forward.pause?).getD 0,
    ((start a b forward backward pause s).backward.pause?).getD 0⟩ with ⟨order, horder⟩
  refine ⟨order, fun d => ?_⟩
  rw [← horder]
  cases d with
  | forward => rfl
  | backward => rfl

/-- Two transfers that cross, whatever the accounts, the amounts and the pause, and whatever else
goes on at the store. Once both have returned, the pair has succeeded exactly if both commits have
been made. If the store has failed one of the two for a cycle of waits, the pair has failed; with
a conflict if that was the forward side, and also if it was the backward side, unless the forward
side has been refused something for another reason. The sides of a crossing that are taken up in
any order return so when they end, and so they do on the clock. -/
theorem first_failure (a b : AccountId) (forward backward : Decimal) (pause : Nat)
    (accounts : Table AccountId Account) (events : List Event) :
    let s := (Store.ofAccounts accounts).after events
    let program := operation a b forward backward pause
    (∀ turns c, ReturnedIn program (.ofStore s) turns c → Tells program (.ofStore s) turns c) ∧
    (∀ order : List Direction,
      let c := order.foldl resume (start a b forward backward pause (.ofStore s))
      c.Ended → ∃ turns, ReturnedIn program (.ofStore s) turns c) ∧
    let c := (run a b forward backward pause (.ofStore s)).1
    c.Ended → ∃ turns, ReturnedIn program (.ofStore s) turns c := by
  intro s program
  have hconsistent : s.Consistent :=
    Store.consistent_after (Store.consistent_ofAccounts accounts) events
  refine ⟨fun turns c => tells_of_returnedIn hconsistent, exists_returnedIn hconsistent a b forward
    backward pause, fun hended => ?_⟩
  rcases run_sides a b forward backward pause (.ofStore s) with ⟨order, hsides⟩
  rcases exists_returnedIn hconsistent a b forward backward pause order
    (fun d => hsides d ▸ hended d) with ⟨turns, hreturned⟩
  exact ⟨turns, hended, fun d => hsides d ▸ hreturned.told d⟩

/-- Two accounts, one of which cannot pay ten. -/
def thin : Table AccountId Account :=
  (Table.empty.insert 1 (.fresh 1 (.ofUInt64 5))).insert 2 (.fresh 2 (.ofUInt64 10))

/-- The backward side waits for the forward one, which closes the cycle and is rolled back. -/
def clash : List (Turn Direction) :=
  [.launch .forward, .advance 1, .advance 1, .launch .backward, .advance 2, .advance 2,
    .advance 2, .advance 1, .advance 1, .advance 1] ++ List.replicate 5 (.advance 2)

theorem first_failure_thin :
    let t : Traffic Direction := .ofStore (.ofAccounts thin)
    let program := operation 1 2 (.ofUInt64 10) (.ofUInt64 1) 5
    let ended : Crossing := ⟨(t.after program clash).service,
      ⟨1, .ended (.error (.conflict (.conflict "40P01"
        "deadlock detected: transaction 1 waits for account 2 held by transaction 2")))⟩,
      ⟨2, .ended (.ok ())⟩⟩
    let taken : Crossing := List.foldl resume
      (start 1 2 (.ofUInt64 10) (.ofUInt64 1) 5 (.ofStore (.ofAccounts thin)))
      [.forward, .backward, .forward]
    let timed := (run 1 2 (.ofUInt64 10) (.ofUInt64 1) 5 (.ofStore (.ofAccounts thin))).1
    (ReturnedIn program t clash ended ∧ Tells program t clash ended) ∧
      (taken.Ended ∧ ∃ turns, ReturnedIn program t turns taken) ∧
      timed.Ended ∧ ∃ turns, ReturnedIn program t turns timed := by
  intro t program ended taken timed
  have hreturned : ReturnedIn program t clash ended := by
    refine ⟨fun d => ?_, fun d => ?_⟩
    · cases d with
      | forward => exact ⟨_, rfl⟩
      | backward => exact ⟨_, rfl⟩
    · rw [← mem_returns_iff]
      cases d with
      | forward => decide +kernel
      | backward => decide +kernel
  have htaken : taken.Ended := by
    intro d
    cases d with
    | forward => exact ⟨_, rfl⟩
    | backward => exact ⟨_, rfl⟩
  have htimed : timed.Ended := by
    intro d
    cases d with
    | forward => exact ⟨_, rfl⟩
    | backward => exact ⟨_, rfl⟩
  rcases first_failure 1 2 (.ofUInt64 10) (.ofUInt64 1) 5 thin [] with ⟨htells, hordered, hclock⟩
  exact ⟨⟨hreturned, htells clash ended hreturned⟩,
    ⟨htaken, hordered [.forward, .backward, .forward] htaken⟩, htimed, hclock htimed⟩

/-- The backward side closes the cycle and is failed with the state code of one. The forward side
then fails for want of money, and this is what is returned, and no conflict. -/
theorem conflict_hidden :
    let c : Crossing := List.foldl resume
      (start 1 2 (.ofUInt64 10) (.ofUInt64 1) 5 (.ofStore (.ofAccounts thin)))
      [.forward, .backward, .forward]
    c.failure? .backward = some (.conflict (.conflict "40P01"
      "deadlock detected: transaction 2 waits for account 1 held by transaction 1")) ∧
    c.outcome = .error (.store (.constraint
      "balance of account 1 would become -5 (check balance >= 0)")) ∧
    (∀ e, c.outcome = .error e → e.isConflict = false) := by
  intro c
  have houtcome : c.outcome = .error (.store (.constraint
      "balance of account 1 would become -5 (check balance >= 0)")) := by decide +kernel
  refine ⟨by decide +kernel, houtcome, fun e he => ?_⟩
  rw [houtcome, Except.error.injEq] at he
  rw [← he]
  rfl

end Crossing

end RowLedger
