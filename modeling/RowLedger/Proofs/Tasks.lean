import RowLedger.Proofs.Frame
import RowLedger.Proofs.Turns
import RowLedger.Proofs.Waiting

/-!
# Tasks at the store

Tasks do to a store what others could do as well: every turn is an event of the
store or nothing (`Traffic.Behind`), so whatever holds in all runs of a store
holds in all traffic. What has to be known for this about a task is that its
transaction waits for a row only while the task stands at the request for it; a
task does not commit, say, while it waits.

So nobody waits forever for want of being woken. When all that can be done has
been done, and the transactions that somebody opened by hand have ended, then
no task is left.

## Main definitions

* `Traffic.Sound`: What holds in all traffic.
* `Traffic.Behind`: The event behind a turn.

## Theorems

* `answered_ask`: What comes of asking for those who do not wait for another
  row.
* `moved_event`: What work does to the store is an event or nothing.
* `turned_store`: A turn is an event of the store or nothing.
* `sound_step`, `sound_after`: All traffic is sound.
* `exists_events`: Traffic is a run of its store.
* `no_wait_is_lost`: Who waits for good waits for somebody who does not, and
  tasks among themselves leave nobody waiting.
-/

namespace RowLedger

open Relation

namespace Store

variable {s : Store} {tx : TxId} {t : OpenTx} {r : Request}

theorem ask_of_ended (hended : s.live.get? tx = none) : s.ask tx r = (.refused .ended, s) := by
  have hblocked : s.isBlocked tx = false := by
    rw [isBlocked, wait?, hended]
    rfl
  rw [ask, hblocked, request, hended]
  rfl

/-- To ask is to be answered, or to go on waiting without another look. -/
theorem answered_ask (h : s.Consistent) (hlive : s.live.get? tx = some t)
    (hstands : ∀ w, t.blocked = some w → w.request = r) :
    Answered s tx t r (s.ask tx r) ∨
      s.ask tx r = (.waiting, s) ∧ ∃ w, t.blocked = some w ∧ w.request = r := by
  rw [ask]
  cases hb : t.blocked with
  | none =>
      rw [(isBlocked_eq_false hlive).2 hb]
      exact Or.inl (answered_request hlive hb)
  | some w =>
      have hblocked : s.isBlocked tx = true := by
        rw [isBlocked, wait?, hlive, Option.bind_some, hb]
        rfl
      rw [if_pos hblocked]
      rcases w with ⟨r', woken⟩
      have hr : r' = r := hstands _ hb
      subst hr
      cases woken with
      | false =>
          refine Or.inr ⟨?_, _, rfl, rfl⟩
          rw [poll, hlive]
          simp only [hb]
      | true => exact Or.inl (answered_poll hlive hb (h.blocked_new hlive hb))

-- Whether it is a call or a poll depends on whether the request is under way already. A call of a
-- transaction that waits would be no event at all.
/-- To ask is an event of the store. -/
theorem ask_step (hle : tx ≤ s.begun) (hstands : ∀ w, s.wait? tx = some w → w.request = r) :
    ∃ e, (e = .poll tx ∨ e = .call tx (.request r)) ∧ (s.ask tx r).2 = (s.step e).2 ∧
      ((s.ask tx r).1 = .waiting ∨
        (s.step e).1 = some ⟨tx, .request r, .replied (s.ask tx r).1⟩) := by
  cases hw : s.wait? tx with
  | none =>
      have hblocked : s.isBlocked tx = false := by
        rw [isBlocked, hw]
        rfl
      have hfree : (s.isBlocked tx || decide (s.begun < tx)) = false := by
        rw [hblocked, Bool.false_or, decide_eq_false_iff_not]
        exact Nat.not_lt.2 hle
      refine ⟨_, Or.inr rfl, ?_⟩
      rw [ask, step, hblocked, ← hblocked, hfree, hblocked]
      exact ⟨rfl, Or.inr rfl⟩
  | some w =>
      have hblocked : s.isBlocked tx = true := by
        rw [isBlocked, hw]
        rfl
      rcases w with ⟨r', woken⟩
      have hr : r' = r := hstands _ hw
      subst hr
      rcases wait?_eq_some_iff.1 hw with ⟨t, hlive, hb⟩
      refine ⟨_, Or.inl rfl, ?_⟩
      rw [ask, if_pos hblocked, step, hw]
      cases woken with
      | false =>
          have hpoll : s.poll tx = (.waiting, s) := by
            rw [poll, hlive]
            simp only [hb]
          rw [hpoll]
          exact ⟨rfl, Or.inl rfl⟩
      | true => exact ⟨rfl, Or.inr rfl⟩

/-- Who is answered does not wait any longer. -/
theorem wait?_of_answered (h : s.Consistent) (hstands : ∀ w, s.wait? tx = some w → w.request = r)
    (hanswer : (s.ask tx r).1 ≠ .waiting) : (s.ask tx r).2.wait? tx = none := by
  cases hlive : s.live.get? tx with
  | none =>
      rw [ask_of_ended hlive]
      exact wait?_of_ended hlive
  | some t =>
      have hstands' : ∀ w, t.blocked = some w → w.request = r := fun w hb =>
        hstands w (wait?_eq_some_iff.2 ⟨t, hlive, hb⟩)
      rcases answered_ask h hlive hstands' with hans | ⟨heq, _⟩
      · generalize s.ask tx r = result at hans hanswer
        cases hans with
        | alone =>
            rw [wait?_put, OpenTx.alone_blocked]
            rfl
        | cycle => exact wait?_put s tx t.idle _
        | waiting => exact absurd rfl hanswer
      · rw [heq] at hanswer
        exact absurd rfl hanswer

/-- Who is not answered waits for what it asks. -/
theorem wait?_of_waiting (h : s.Consistent)
    (hstands : ∀ w, s.wait? tx = some w → w.request = r) {w : Wait}
    (hw : (s.ask tx r).2.wait? tx = some w) : w.request = r := by
  cases hlive : s.live.get? tx with
  | none =>
      rw [ask_of_ended hlive] at hw
      exact hstands w hw
  | some t =>
      have hstands' : ∀ w, t.blocked = some w → w.request = r := fun w hb =>
        hstands w (wait?_eq_some_iff.2 ⟨t, hlive, hb⟩)
      rcases answered_ask h hlive hstands' with hans | ⟨heq, _⟩
      · generalize s.ask tx r = result at hans hw
        cases hans with
        | alone =>
            rw [wait?_put, OpenTx.alone_blocked] at hw
            simp at hw
        | cycle =>
            rw [wait?_put] at hw
            simp at hw
        | waiting =>
            rw [wait?_put, Option.some.injEq] at hw
            rw [← hw]
      · rw [heq] at hw
        exact hstands w hw

theorem wait?_step_other {e : Event} (hle : tx ≤ s.begun) (he : e.tx? ≠ some tx) {w : Wait}
    (hw : (s.step e).2.wait? tx = some w) :
    ∃ w₀, s.wait? tx = some w₀ ∧ w₀.request = w.request := by
  rcases wait?_eq_some_iff.1 hw with ⟨t', hlive', hb⟩
  rcases live_step_other hle he with hsame | hwoken
  · rw [hsame] at hlive'
    exact ⟨w, wait?_eq_some_iff.2 ⟨t', hlive', hb⟩, rfl⟩
  · rw [hwoken, Option.map_eq_some_iff] at hlive'
    rcases hlive' with ⟨t, hlive, rfl⟩
    rcases Option.map_eq_some_iff.1 hb with ⟨w₀, hb₀, rfl⟩
    exact ⟨w₀, wait?_eq_some_iff.2 ⟨t, hlive, hb₀⟩, rfl⟩

theorem step_call_of_unblocked (hle : tx ≤ s.begun) (hblocked : s.wait? tx = none) (c : Call) :
    (s.step (.call tx c)).2 = (s.call tx c).2 := by
  have hfree : (s.isBlocked tx || decide (s.begun < tx)) = false := by
    rw [isBlocked, hblocked, Option.isSome_none, Bool.false_or, decide_eq_false_iff_not]
    exact Nat.not_lt.2 hle
  rw [step, hfree]
  rfl

end Store

namespace Work

variable {α : Type} {s s' : Store} {tx : TxId} {work work' : Work α}
  (hstanding : ∀ w, s.wait? tx = some w → ∃ next, work = .request w.request next)
include hstanding

/-- Work at a request does not wait for another one. -/
theorem stands_of_standing {r : Request} {next : Except StoreFault Decimal → Work α}
    (hwork : work = .request r next) : ∀ w, s.wait? tx = some w → w.request = r := by
  intro w hw
  rcases hstanding w hw with ⟨next', hwork'⟩
  rw [hwork, Work.request.injEq] at hwork'
  exact hwork'.1.symm

/-- Work that stands at no request does not wait. -/
theorem wait?_of_standing (hwork : ∀ r next, work ≠ .request r next) : s.wait? tx = none := by
  cases hw : s.wait? tx with
  | none => rfl
  | some w =>
      rcases hstanding w hw with ⟨next, hrequest⟩
      exact absurd hrequest (hwork w.request next)

/-- What work does to the store is an event about its transaction, or nothing. -/
theorem moved_event (hle : tx ≤ s.begun) (hmoved : work.Moved tx s (work', s')) :
    s' = s ∨ ∃ e, s' = (s.step e).2 ∧ e.tx? = some tx ∧
      ∀ other r, e = .call other (.request r) → ∃ next, work = .request r next := by
  have hasked : ∀ {r next}, work = .request r next → ∃ e, (s.ask tx r).2 = (s.step e).2 ∧
      e.tx? = some tx ∧
      ∀ other r, e = .call other (.request r) → ∃ next, work = .request r next := by
    intro r next hwork
    rcases Store.ask_step hle (stands_of_standing hstanding hwork) with ⟨e, rfl | rfl, heq, _⟩
    · exact ⟨_, heq, rfl, by simp⟩
    · refine ⟨_, heq, rfl, ?_⟩
      intro other r' hr'
      rw [Event.call.injEq, Call.request.injEq] at hr'
      exact ⟨next, hr'.2 ▸ hwork⟩
  -- To end its transaction work has to stand at no request, so it does not wait.
  have hcalled : ∀ c, (∀ r, c ≠ .request r) → (∀ r next, work ≠ .request r next) →
      ∃ e, (s.call tx c).2 = (s.step e).2 ∧ e.tx? = some tx ∧
        ∀ other r, e = .call other (.request r) → ∃ next, work = .request r next := by
    intro c hc hwork
    have heq := Store.step_call_of_unblocked hle (wait?_of_standing hstanding hwork) c
    refine ⟨_, heq.symm, rfl, ?_⟩
    intro other r hr
    rw [Event.call.injEq] at hr
    exact absurd hr.2 (hc r)
  generalize hwork : work = before at hmoved
  cases hmoved with
  | answered => exact Or.inr (hwork ▸ hasked hwork)
  | waiting => exact Or.inr (hwork ▸ hasked hwork)
  | committed => exact Or.inr (hwork ▸ hcalled .commit (by simp) (by simp [hwork]))
  | rolledBack => exact Or.inr (hwork ▸ hcalled .rollback (by simp) (by simp [hwork]))
  | _ => exact Or.inl rfl

/-- What has become of work stands where its transaction waits. -/
theorem standing_of_moved (h : s.Consistent) (hmoved : work.Moved tx s (work', s')) {w : Wait}
    (hw : s'.wait? tx = some w) : ∃ next, work' = .request w.request next := by
  have hasking : ∀ {r next}, work = .request r next →
      ∀ w, s.wait? tx = some w → w.request = r := fun hwork => stands_of_standing hstanding hwork
  generalize work = before at hmoved hstanding hasking
  cases hmoved with
  | @answered r next answer hanswer =>
      have hnot : (s.ask tx r).1 ≠ .waiting := by
        intro hc
        rw [hc] at hanswer
        simp [Reply.toAnswer] at hanswer
      rw [Store.wait?_of_answered h (hasking rfl) hnot] at hw
      simp at hw
  | @waiting r next =>
      have hr := Store.wait?_of_waiting h (hasking rfl) hw
      exact ⟨next, hr ▸ rfl⟩
  | committed next =>
      rw [Store.wait?_of_ended (Store.ended_commit _ _)] at hw
      simp at hw
  | rolledBack next =>
      rw [Store.wait?_of_ended (Store.ended_release _ _)] at hw
      simp at hw
  | _ =>
      rcases hstanding w hw with ⟨next', hwork⟩
      simp at hwork

end Work

namespace Traffic

variable {ι : Type} {program : ι → Operation}

/-- What holds in all traffic. -/
structure Sound (t : Traffic ι) : Prop where
  consistent : t.store.Consistent
  plan : t.service.plan = .empty
  begun : ∀ tx task, t.tasks.get? tx = some task → tx ≤ t.store.begun
  /-- A task whose transaction waits stands at the request that waits. -/
  standing : ∀ tx task w, t.tasks.get? tx = some task → t.store.wait? tx = some w →
    ∃ next, task.work = .request w.request next

/-- The event behind a turn. -/
inductive Behind (t : Traffic ι) : Turn ι → Event → Prop where
  | outside {e : Event} (hfree : ∀ tx, e.tx? = some tx → t.isTaken tx = false) :
      Behind t (.event e) e
  | opening (label : ι) : Behind t (.launch label) .start
  | going {tx : TxId} {task : Task ι} {e : Event} (htask : t.tasks.get? tx = some task)
      (htx : e.tx? = some tx)
      (hasks : ∀ other r, e = .call other (.request r) → ∃ next, task.work = .request r next) :
      Behind t (.advance tx) e
  | leaving (tx : TxId) : Behind t (.cut tx) (.drop tx)

variable {t : Traffic ι}

/-- A task at a request does not wait for another one. -/
theorem Sound.stands (h : t.Sound) {tx : TxId} {task : Task ι} {r : Request}
    {next : Except StoreFault Decimal → Work Unit} (htask : t.tasks.get? tx = some task)
    (hwork : task.work = .request r next) :
    ∀ w, t.store.wait? tx = some w → w.request = r :=
  Work.stands_of_standing (fun w => h.standing tx task w htask) hwork

/-- What a task does to the store could be anybody's doing. -/
theorem moved_store (h : t.Sound) {tx : TxId} {task : Task ι} {work : Work Unit} {s' : Store}
    (htask : t.tasks.get? tx = some task) (hmoved : task.work.Moved tx t.store (work, s')) :
    s' = t.store ∨ ∃ e, s' = (t.store.step e).2 ∧ t.Behind (.advance tx) e := by
  rcases Work.moved_event (fun w => h.standing tx task w htask) (h.begun tx task htask) hmoved with
    hsame | ⟨e, hstep, htx, hasks⟩
  · exact Or.inl hsame
  · exact Or.inr ⟨e, hstep, .going htask htx hasks⟩

/-- A turn is an event of the store or nothing. -/
theorem turned_store (h : t.Sound) {turn : Turn ι} {result : List (Report ι) × Traffic ι}
    (hturned : Turned program t turn result) :
    result.2.store = t.store ∨
      ∃ e, result.2.store = (t.store.step e).2 ∧ t.Behind turn e := by
  have hended : ∀ {tx task}, t.tasks.get? tx = some task → t.Behind (.advance tx) (.drop tx) := by
    intro tx task htask
    exact .going htask rfl (by simp)
  cases hturned with
  | nothing => exact Or.inl rfl
  | happened hfree hstore => exact Or.inr ⟨_, hstore, .outside hfree⟩
  | settled => exact Or.inl rfl
  | @launched label _ _ _ hstore => exact Or.inr ⟨.start, hstore, .opening label⟩
  | moved htask hmoved => exact moved_store h htask hmoved
  | returned htask => exact Or.inr ⟨_, rfl, hended htask⟩
  | crashed htask => exact Or.inr ⟨_, rfl, hended htask⟩
  | @cut tx => exact Or.inr ⟨_, rfl, .leaving tx⟩

/-- The event behind a turn is not about the tasks that have no part in it. -/
theorem Behind.tx?_ne {turn : Turn ι} {e : Event} (hbehind : t.Behind turn e) {other : TxId}
    {task : Task ι} (htask : t.tasks.get? other = some task) (hadvance : turn ≠ .advance other)
    (hcut : turn ≠ .cut other) : e.tx? ≠ some other := by
  intro htx
  cases hbehind with
  | outside hfree =>
      have := hfree other htx
      rw [isTaken, Table.contains, htask] at this
      simp at this
  | opening => simp [Event.tx?] at htx
  | going _ htx' =>
      rw [htx', Option.some.injEq] at htx
      exact hadvance (htx ▸ rfl)
  | leaving tx =>
      rw [Event.tx?, Option.some.injEq] at htx
      exact hcut (htx ▸ rfl)

/-- A turn leaves the calls of the other tasks alone. -/
theorem wait?_turned_other (h : t.Sound) {turn : Turn ι} {result : List (Report ι) × Traffic ι}
    (hturned : Turned program t turn result) {other : TxId} {task : Task ι}
    (htask : t.tasks.get? other = some task) (hadvance : turn ≠ .advance other)
    (hcut : turn ≠ .cut other) {w : Wait} (hw : result.2.store.wait? other = some w) :
    ∃ w₀, t.store.wait? other = some w₀ ∧ w₀.request = w.request := by
  rcases turned_store h hturned with hsame | ⟨e, hstep, hbehind⟩
  · rw [hsame] at hw
    exact ⟨w, hw, rfl⟩
  · rw [hstep] at hw
    exact Store.wait?_step_other (h.begun other task htask)
      (hbehind.tx?_ne htask hadvance hcut) hw

/-- What a task has become of stands where its transaction waits. -/
theorem standing_moved (h : t.Sound) {tx : TxId} {task : Task ι} {work : Work Unit} {s' : Store}
    (htask : t.tasks.get? tx = some task) (hmoved : task.work.Moved tx t.store (work, s'))
    {w : Wait} (hw : s'.wait? tx = some w) : ∃ next, work = .request w.request next :=
  Work.standing_of_moved (fun w => h.standing tx task w htask) h.consistent hmoved hw

theorem begun_turned_le (h : t.Sound) {turn : Turn ι} {result : List (Report ι) × Traffic ι}
    (hturned : Turned program t turn result) : t.store.begun ≤ result.2.store.begun := by
  rcases turned_store h hturned with hsame | ⟨e, hstep, _⟩
  · exact Nat.le_of_eq (hsame ▸ rfl)
  · rw [hstep]
    exact Store.begun_step_le t.store e

/-- What a task may be after a turn. -/
inductive TaskTurned (program : ι → Operation) (t : Traffic ι) (tx : TxId) (task' : Task ι) :
    Turn ι → Traffic ι → Prop where
  | still (turn : Turn ι) (htask : t.tasks.get? tx = some task') :
      TaskTurned program t tx task' turn t
  /-- The turn was not about the task. -/
  | apart {turn : Turn ι} {t' : Traffic ι} (htask : t.tasks.get? tx = some task')
      (hadvance : turn ≠ .advance tx) (hcut : turn ≠ .cut tx) :
      TaskTurned program t tx task' turn t'
  | launched {label : ι} {body : Work Unit} {t' : Traffic ι}
      (hprogram : program label = .inTransaction body) (hstore : t'.store = t.store.start.2)
      (htx : tx = t.store.start.1) (hnew : task' = ⟨label, body⟩) :
      TaskTurned program t tx task' (.launch label) t'
  | moved {task : Task ι} {work : Work Unit} {t' : Traffic ι}
      (htask : t.tasks.get? tx = some task) (hmoved : task.work.Moved tx t.store (work, t'.store))
      (hwork : task' = { task with work }) : TaskTurned program t tx task' (.advance tx) t'

theorem taskTurned {turn : Turn ι} {result : List (Report ι) × Traffic ι}
    (hturned : Turned program t turn result) {tx : TxId} {task' : Task ι}
    (htask' : result.2.tasks.get? tx = some task') :
    TaskTurned program t tx task' turn result.2 := by
  have hclosed : ∀ {tx'}, (t.close tx').tasks.get? tx = some task' →
      tx' ≠ tx ∧ t.tasks.get? tx = some task' := by
    intro tx' h
    rw [close, Table.get?_erase] at h
    by_cases heq : tx' = tx
    · simp [heq] at h
    · rw [if_neg heq] at h
      exact ⟨heq, h⟩
  cases hturned with
  | nothing turn => exact .still turn htask'
  | happened _ _ htasks =>
      rw [htasks] at htask'
      exact .apart htask' (by simp) (by simp)
  | settled => exact .still _ htask'
  | launched hprogram hstore htasks =>
      rw [htasks, Table.get?_insert] at htask'
      by_cases heq : t.store.start.1 = tx
      · rw [if_pos heq, Option.some.injEq] at htask'
        exact .launched hprogram hstore heq.symm htask'.symm
      · rw [if_neg heq] at htask'
        exact .apart htask' (by simp) (by simp)
  | @moved tx' task work t' htask hmoved htasks =>
      rw [htasks, Table.get?_insert] at htask'
      by_cases heq : tx' = tx
      · rw [if_pos heq, Option.some.injEq] at htask'
        subst heq
        exact .moved htask hmoved htask'.symm
      · rw [if_neg heq] at htask'
        exact .apart htask' (by simp [heq]) (by simp)
  | returned =>
      rcases hclosed htask' with ⟨hne, htask⟩
      exact .apart htask (by simp [hne]) (by simp)
  | crashed =>
      rcases hclosed htask' with ⟨hne, htask⟩
      exact .apart htask (by simp [hne]) (by simp)
  | cut =>
      rcases hclosed htask' with ⟨hne, htask⟩
      exact .apart htask (by simp) (by simp [hne])

-- Transactions are numbered as they are opened, so the number of one that is gone is never used
-- again.
/-- A task that is gone stays gone. -/
theorem gone_turned {turn : Turn ι} {result : List (Report ι) × Traffic ι}
    (hturned : Turned program t turn result) {tx : TxId} (hle : tx ≤ t.store.begun)
    (hgone : t.tasks.get? tx = none) : result.2.tasks.get? tx = none := by
  cases htask' : result.2.tasks.get? tx with
  | none => rfl
  | some task' =>
      have hafter := taskTurned hturned htask'
      generalize result.2 = t' at hafter
      cases hafter with
      | still _ htask => simp [hgone] at htask
      | apart htask => simp [hgone] at htask
      | launched _ _ htx => exact absurd (htx ▸ hle) (Nat.not_succ_le_self _)
      | moved htask => simp [hgone] at htask

-- Each task is either left alone by the turn, or it is the one that is launched or moved.
/-- A sound traffic stays sound. -/
theorem sound_step (h : t.Sound) (turn : Turn ι) : (t.step program turn).2.Sound := by
  have hplan := plan_step program h.plan turn
  have hturned := turned program h.plan turn
  generalize t.step program turn = result at hplan hturned
  refine ⟨?_, hplan, ?_, ?_⟩
  · rcases turned_store h hturned with hsame | ⟨e, hstep, _⟩
    · exact hsame ▸ h.consistent
    · exact hstep ▸ Store.consistent_step h.consistent e
  · intro tx task' htask'
    have hle := begun_turned_le h hturned
    have hafter := taskTurned hturned htask'
    generalize result.2 = t' at hle hafter
    cases hafter with
    | still _ htask => exact h.begun tx task' htask
    | apart htask => exact Nat.le_trans (h.begun tx task' htask) hle
    | launched _ hstore htx =>
        rw [hstore, htx]
        exact Nat.le_refl _
    | @moved task _ _ htask => exact Nat.le_trans (h.begun tx task htask) hle
  · intro tx task' w htask' hw
    have hother : ∀ {task}, t.tasks.get? tx = some task → turn ≠ .advance tx → turn ≠ .cut tx →
        ∃ w₀, t.store.wait? tx = some w₀ ∧ w₀.request = w.request := by
      intro task htask hadvance hcut
      exact wait?_turned_other h hturned htask hadvance hcut hw
    have hafter := taskTurned hturned htask'
    generalize result.2 = t' at hw hafter
    cases hafter with
    | still _ htask => exact h.standing tx task' w htask hw
    | apart htask hadvance hcut =>
        rcases hother htask hadvance hcut with ⟨w₀, hw₀, hrequest⟩
        exact hrequest ▸ h.standing tx task' w₀ htask hw₀
    | launched _ hstore htx =>
        have hfresh : t.store.start.2.wait? t.store.start.1 = none := by
          rw [Store.wait?, Store.start, Table.get?_insert, if_pos rfl]
          rfl
        rw [hstore, htx, hfresh] at hw
        simp at hw
    | moved htask hmoved hwork =>
        rcases standing_moved h htask hmoved hw with ⟨next, hstands⟩
        exact ⟨next, by rw [hwork, ← hstands]⟩

theorem sound_ofStore {s : Store} (h : s.Consistent) : (ofStore s : Traffic ι).Sound where
  consistent := h
  plan := rfl
  begun := by simp [ofStore]
  standing := by simp [ofStore]

/-- All traffic is sound. -/
theorem sound_after (h : t.Sound) (turns : List (Turn ι)) : (t.after program turns).Sound := by
  induction turns generalizing t with
  | nil => exact h
  | cons turn rest ih => exact ih (sound_step h turn)

theorem begun_after_le (h : t.Sound) (turns : List (Turn ι)) :
    t.store.begun ≤ (t.after program turns).store.begun := by
  induction turns generalizing t with
  | nil => exact Nat.le_refl _
  | cons turn rest ih =>
      exact Nat.le_trans (begun_turned_le h (turned program h.plan turn)) (ih (sound_step h turn))

/-- Traffic is a run of its store. -/
theorem exists_events (h : t.Sound) (turns : List (Turn ι)) :
    ∃ events, (t.after program turns).store = t.store.after events := by
  induction turns generalizing t with
  | nil => exact ⟨[], rfl⟩
  | cons turn rest ih =>
      rcases ih (sound_step h turn) with ⟨events, hevents⟩
      rcases turned_store h (turned program h.plan turn) with hsame | ⟨e, hstep, _⟩
      · exact ⟨events, by rw [after_cons, hevents, hsame]⟩
      · exact ⟨e :: events, by rw [after_cons, hevents, hstep, Store.after_cons]⟩

/-- When nobody can go on and the transactions opened by hand have ended, no task is left. -/
theorem no_task_left (h : t.Sound) (hacyclic : t.store.locks.Acyclic) (hset : t.store.Settled)
    (hrest : t.AtRest) (hends : ∀ tx, t.store.isOpen tx = true → t.isTaken tx = true) (tx : TxId) :
    t.isTaken tx = false := by
  rw [← Bool.not_eq_true, isTaken_eq_true]
  rintro ⟨task, htask⟩
  have hblocked := hrest tx task htask
  rcases Store.blockedOn_of_settled h.consistent hset hblocked with ⟨holder, _, _, hopen⟩
  rcases Store.exists_runner h.consistent hacyclic hset hopen with ⟨last, _, hlast, hruns⟩
  -- The one who does not wait is a task as well, and all tasks wait.
  rcases isTaken_eq_true.1 (hends last hlast) with ⟨task', htask'⟩
  rw [hrest last task' htask'] at hruns
  simp at hruns

/-- There is no cycle of waits in any traffic. When no call that was woken can go on, whoever waits
waits for another transaction that is open, and behind these waits is one that does not wait. When
no task can go on, either, and all other transactions have ended, no task is left. -/
theorem no_wait_is_lost (program : ι → Operation) (turns : List (Turn ι)) :
    let t := (ofStore .empty).after program turns
    t.store.locks.Acyclic ∧
      (t.store.Settled → ∀ tx, t.store.isBlocked tx = true →
        (∃ holder, t.store.BlockedOn tx holder ∧ holder ≠ tx ∧ t.store.isOpen holder = true) ∧
          ∃ last, ReflTransGen t.store.BlockedOn tx last ∧ t.store.isOpen last = true ∧
            t.store.isBlocked last = false) ∧
      (t.store.Settled → t.AtRest → (∀ tx, t.store.isOpen tx = true → t.isTaken tx = true) →
        ∀ tx, t.isTaken tx = false) := by
  intro t
  have hsound : t.Sound := sound_after (sound_ofStore Store.consistent_empty) turns
  have hevents : ∃ events, t.store = Store.empty.after events :=
    exists_events (sound_ofStore Store.consistent_empty) turns
  have hacyclic : t.store.locks.Acyclic := by
    rcases hevents with ⟨events, hevents⟩
    rw [hevents]
    exact Store.acyclic_after Store.acyclic_empty events
  refine ⟨hacyclic, ?_, fun hset hrest hends => no_task_left hsound hacyclic hset hrest hends⟩
  intro hset tx hblocked
  rcases Store.blockedOn_of_settled hsound.consistent hset hblocked with ⟨holder, hwaits⟩
  have hopen : t.store.isOpen tx = true := Store.isOpen_of_isBlocked hblocked
  exact ⟨⟨holder, hwaits⟩, Store.exists_runner hsound.consistent hacyclic hset hopen⟩

/-- A transfer waits for a row of a transaction that was opened by hand. -/
def queue : List (Turn OrderedCall) :=
  [.event (.insert 1 (.ofUInt64 10)), .event (.insert 2 .zero), .event .start,
    .event (.call 1 (.request (.query 1))), .launch (.transfer ⟨1, 2, .ofUInt64 3⟩), .advance 2]

/-- That transaction ends, and the transfer goes through. -/
def cleared : List (Turn OrderedCall) :=
  .event (.call 1 .rollback) :: List.replicate 7 (.advance 2)

theorem no_wait_is_lost_queue :
    let t := (ofStore .empty).after OrderedCall.operation queue
    let t' := (ofStore .empty).after OrderedCall.operation (queue ++ cleared)
    (t.store.Settled ∧ t.store.isBlocked 2 = true ∧
        ∃ last, ReflTransGen t.store.BlockedOn 2 last ∧ t.store.isOpen last = true ∧
          t.store.isBlocked last = false) ∧
      t'.store.Settled ∧ t'.AtRest ∧ (∀ tx, t'.store.isOpen tx = true → t'.isTaken tx = true) ∧
        t'.isTaken 2 = false := by
  intro t t'
  have hlive : t.store.live.entries.all (fun e => e.2.blocked.all (!·.woken)) = true := by
    decide +kernel
  have hset : t.store.Settled := Store.settled_of_entries hlive
  have hblocked : t.store.isBlocked 2 = true := by decide +kernel
  have hlive' : t'.store.live = .empty := by decide +kernel
  have htasks' : t'.tasks = .empty := rfl
  have hset' : t'.store.Settled := by
    apply Store.settled_of_entries
    rw [hlive']
    rfl
  have hrest' : t'.AtRest := by
    intro tx task htask
    rw [htasks'] at htask
    simp at htask
  have hends' : ∀ tx, t'.store.isOpen tx = true → t'.isTaken tx = true := by
    intro tx hopen
    rw [Store.isOpen, hlive'] at hopen
    simp [Table.contains] at hopen
  exact ⟨⟨hset, hblocked, ((no_wait_is_lost OrderedCall.operation queue).2.1 hset 2 hblocked).2⟩,
    hset', hrest', hends',
    (no_wait_is_lost OrderedCall.operation (queue ++ cleared)).2.2 hset' hrest' hends' 2⟩

end Traffic

end RowLedger
