import RowLedger.Proofs.CrossingTurns
import RowLedger.Proofs.StandoffMeeting

/-!
# Crossing transfers meet on the clock

A side that pauses before its second row stops there when it is begun. If both
pause, both have their first rows when both have been begun, and neither has
asked for its second one; and whichever is taken up when, its requests are turns
that it could have taken in traffic. On the clock the sides are taken up three
times: one of them stops at its second row, the other one fails there, and then
the first one comes to its end.

A side that is begun and taken up with nobody else around comes to its commit,
too, and to the same accounts.

## Main definitions

* `Standoff.alone`: A side that has everything to itself.

## Theorems

* `alone_eq`: What a side comes to alone.
* `exists_met`: Sides that pause meet.
* `exists_taken_up`, `exists_run`: In any order, and on the clock.
* `outcome_run`: What is returned of them on the clock.
-/

namespace RowLedger

/-- On the clock the backward side is taken up first, then the forward side, then the backward side
again. -/
theorem Crossing.Timed.play_meeting {p q : TxId} {s s₁ s₂ s₃ : Service} {millis : Nat}
    {w w' : Work Unit} {r : Request} {next : Except StoreFault Decimal → Work Unit}
    {outcome outcome' : Except Failure Unit}
    (hstops : (CrossingSide.mk q (.pausing millis w')).resume s = (⟨q, .blocked r next⟩, s₁))
    (hfails : (CrossingSide.mk p (.pausing millis w)).resume s₁ = (⟨p, .ended outcome⟩, s₂))
    (hends : (CrossingSide.mk q (.blocked r next)).resume s₂ = (⟨q, .ended outcome'⟩, s₃)) :
    (play maxStops ⟨⟨s, ⟨p, .pausing millis w⟩, ⟨q, .pausing millis w'⟩⟩,
        0, millis, millis⟩).crossing =
      ⟨s₃, ⟨p, .ended outcome⟩, ⟨q, .ended outcome'⟩⟩ := by
  have hnext : next? ⟨⟨s, ⟨p, .pausing millis w⟩, ⟨q, .pausing millis w'⟩⟩,
      0, millis, millis⟩ = some (.backward, millis) := by
    simp [next?, CrossingSide.isBlocked, CrossingSide.pause?]
  rw [maxStops, play, hnext]
  simp only [resume, Crossing.resume, hstops]
  rw [play]
  simp only [next?, CrossingSide.isBlocked, CrossingSide.hasEnded, CrossingSide.pause?,
    Bool.and_false, Bool.false_eq_true, ↓reduceIte, resume, Crossing.resume, hfails]
  rw [play]
  simp only [next?, CrossingSide.isBlocked, CrossingSide.hasEnded, CrossingSide.pause?,
    Bool.and_self, Bool.false_eq_true, ↓reduceIte, resume, Crossing.resume, hends]
  rfl

namespace Standoff

open Work (Progress)

variable {c : Standoff} {s₀ : Store} {d : Direction} {t : Traffic Direction} {tx p q : TxId}
  {x y x' y' : Place}

/-- A side that has everything to itself: it is begun, and taken up after its pause. -/
def alone (c : Standoff) (d : Direction) (s : Service) : CrossingSide × Service :=
  let (side, s) :=
    CrossingSide.start (Work.crossing (c.row d) (c.row d.other) (c.amount d) c.pause) s
  side.resume s

section Alone

variable {s : Service} (hplan : s.plan = .empty)
include hplan

/-- Up to its pause a side gets its first row. -/
theorem run_crossing (hwith : s₀.With tx .fresh s.store)
    (hfree : s₀.locks.holders.get? (c.row d) = none)
    (hthere : (s₀.accounts.get? (c.row d)).isSome = true) :
    ∃ s' : Service, (Work.crossing (c.row d) (c.row d.other) (c.amount d) c.pause).run tx s =
        (c.rested d).run tx s' ∧
      s'.plan = .empty ∧ s₀.With tx ⟨[c.row d], .empty, none⟩ s'.store := by
  rcases Option.isSome_iff_exists.1 hthere with ⟨account, haccount⟩
  have hquery : (Work.query (c.row d)).EndsIn s₀ tx .fresh (.ok account.balance.shown)
      (OpenTx.fresh.lock (c.row d)) :=
    Work.endsIn_query (by simp [OpenTx.fresh]) rfl hfree haccount
  rcases hquery s hplan hwith with ⟨s', hrun, hplan', hwith'⟩
  refine ⟨s', ?_, hplan', hwith'⟩
  rw [crossing_eq]
  exact Work.run_settle hrun

/-- After its pause a side gets its second row and comes to its commit. -/
theorem run_asking (hwith : s₀.With tx ⟨[c.row d], .empty, none⟩ s.store)
    (hfree : s₀.locks.holders.get? (c.row d.other) = none)
    (hthere : (s₀.accounts.get? (c.row d.other)).isSome = true) :
    ∃ s' : Service, (c.asking d).run tx s =
        (.ended (s₀.outcome (c.deltas d).entries), s') ∧
      s'.store.accounts = s₀.settledAccounts (c.deltas d).entries := by
  rcases Option.isSome_iff_exists.1 hthere with ⟨account, haccount⟩
  have hnew : c.row d.other ∉ [c.row d] := by simpa using (c.row_ne d).symm
  have hpending : (Table.empty.insert (c.row d) (c.amount d).neg).get? (c.row d.other) = none := by
    rw [Table.get?_insert, if_neg (c.row_ne d)]
    rfl
  have hbody : (do
      let _ ← Work.query (c.row d.other)
      Work.update (c.row d) (c.amount d).neg
      Work.update (c.row d.other) (c.amount d) : Work Unit).EndsIn s₀ tx
        ⟨[c.row d], .empty, none⟩ (.ok ())
        ⟨[c.row d, c.row d.other], c.deltas d, none⟩ := by
    refine Work.endsIn_bind (Work.endsIn_query hnew rfl hfree haccount) ?_
    refine Work.endsIn_bind (Work.endsIn_update (by simp) rfl) ?_
    exact Work.endsIn_update (by simp) hpending
  rcases hbody s hplan hwith with ⟨s', hrun, hplan', hwith'⟩
  rcases Store.commit_eq_verdict hwith'.record with ⟨hanswer, haccounts, _⟩
  rcases Store.settled_congr hwith'.accounts hwith'.due (c.deltas d).entries with
    ⟨hsettled, houtcome⟩
  refine ⟨(s'.commit tx).2, ?_, ?_⟩
  · rw [asking, Work.concluded, Work.run_settle hrun, ← houtcome]
    simp only [Work.conclude, Work.run]
    rw [Service.commit_answer tx hplan', hanswer, Store.outcome]
    cases s'.store.verdict _ with
    | ok => rfl
    | error => rfl
  · rw [Service.commit_store tx hplan', haccounts, hsettled]

end Alone

/-- What a side comes to that has everything to itself. -/
theorem alone_eq {s : Store} (hfree : ∀ e, s.locks.holders.get? (c.row e) = none)
    (hthere : ∀ e, (s.accounts.get? (c.row e)).isSome = true) :
    (c.alone d (.ofStore s)).1.progress = .ended (s.outcome (c.deltas d).entries) ∧
      (c.alone d (.ofStore s)).2.store.accounts = s.settledAccounts (c.deltas d).entries := by
  have hplan : (Service.ofStore s).start.2.plan = .empty := rfl
  rcases run_crossing hplan (Store.with_start s) (hfree d) (hthere d) with
    ⟨s₁, hrun, hplan₁, hwith₁⟩
  rcases run_asking hplan₁ hwith₁ (hfree d.other) (hthere d.other) with
    ⟨s₂, hrest, haccounts⟩
  have hstart : CrossingSide.start
      (Work.crossing (c.row d) (c.row d.other) (c.amount d) c.pause) (.ofStore s) =
      CrossingSide.after s.start.1 ((c.rested d).run s.start.1 s₁) :=
    congrArg (CrossingSide.after _) hrun
  have hended : (CrossingSide.after s.start.1 ((.ended (s.outcome (c.deltas d).entries), s₂) :
      Progress Unit × Service)).2.store.accounts = s.settledAccounts (c.deltas d).entries :=
    (Store.release_accounts s₂.store s.start.1).trans haccounts
  rw [alone, hstart]
  by_cases hpause : c.pause = 0
  · -- The side does not pause, and there is nothing left to take up.
    have hrested : (c.rested d).run s.start.1 s₁ =
        (.ended (s.outcome (c.deltas d).entries), s₂) := by
      rw [rested, if_pos hpause]
      exact hrest
    rw [hrested]
    exact ⟨rfl, hended⟩
  · have hrested : (c.rested d).run s.start.1 s₁ = (.pausing c.pause (c.asking d), s₁) := by
      rw [rested, if_neg hpause]
      rfl
    have hresumed : (CrossingSide.mk s.start.1 (.pausing c.pause (c.asking d))).resume s₁ =
        CrossingSide.after s.start.1 (.ended (s.outcome (c.deltas d).entries), s₂) :=
      congrArg (CrossingSide.after _) hrest
    rw [hrested]
    exact ⟨congrArg (fun side => side.1.progress) hresumed,
      (congrArg (fun side => side.2.store.accounts) hresumed).trans hended⟩

/-- A side that pauses and that is launched gets its first row and stops. -/
theorem exists_paused (d : Direction) (t : Traffic Direction) (hpause : c.pause ≠ 0)
    (hplan : t.service.plan = .empty)
    (hfree : t.store.locks.holders.get? (c.row d) = none)
    (hthere : (t.store.accounts.get? (c.row d)).isSome = true) :
    ∃ more : List TxId,
      let t' := t.after c.operation (.launch d :: more.map .advance)
      CrossingSide.start
          (Work.crossing (c.row d) (c.row d.other) (c.amount d) c.pause) t.service =
        (⟨t.service.start.1, .pausing c.pause (c.asking d)⟩, t'.service) ∧
      t'.service.plan = .empty ∧
      t.store.start.2.With t.service.start.1 ⟨[c.row d], .empty, none⟩ t'.store ∧
      t'.tasks.get? t.service.start.1 = some ⟨d, .pause c.pause (c.asking d)⟩ ∧
      ∀ other, t.service.start.1 ≠ other → t'.tasks.get? other = t.tasks.get? other := by
  rcases run_crossing (s := t.service.start.2) hplan (Store.with_start t.store) hfree hthere with
    ⟨s', hrun, hplan', hwith⟩
  have hrested : (c.rested d).run t.service.start.1 s' =
      (.pausing c.pause (c.asking d), s') := by
    rw [rested, if_neg hpause]
    rfl
  have hstops : (Work.crossing (c.row d) (c.row d.other) (c.amount d) c.pause).run
      t.service.start.1 t.service.start.2 = (.pausing c.pause (c.asking d), s') :=
    hrun.trans hrested
  have hlaunch : (t.step c.operation (.launch d)).2 = ⟨t.service.start.2,
      t.tasks.insert t.service.start.1
        ⟨d, Work.crossing (c.row d) (c.row d.other) (c.amount d) c.pause⟩⟩ := rfl
  have hwalks := Work.walks_run t.service.start.1
    (Work.crossing (c.row d) (c.row d.other) (c.amount d) c.pause) t.service.start.2
  rw [hstops] at hwalks
  rcases Crossing.exists_after c.operation (d := d) (t := (t.step c.operation (.launch d)).2) hwalks
    rfl (by rw [hlaunch, Table.get?_insert, if_pos rfl]) with ⟨more, hlast, htask, _, hothers⟩
  have hservice : (t.after c.operation (.launch d :: more.map .advance)).service = s' := hlast
  refine ⟨more, ?_, hservice ▸ hplan', ?_, htask, fun other hne => ?_⟩
  · rw [hservice]
    exact congrArg (CrossingSide.after _) hstops
  · have hstore : (t.after c.operation (.launch d :: more.map .advance)).store = s'.store :=
      congrArg Service.store hservice
    rw [hstore]
    exact hwith
  · refine (hothers other hne).trans ?_
    rw [hlaunch, Table.get?_insert, if_neg hne]

/-- A task at a pause does not wait. -/
theorem isBlocked_of_pausing (h : t.Sound) {millis : Nat} {next : Work Unit}
    (htask : t.tasks.get? tx = some ⟨d, .pause millis next⟩) :
    t.store.isBlocked tx = false := by
  rw [Store.isBlocked, Option.isSome_eq_false_iff, Option.isNone_iff_eq_none]
  exact Work.wait?_of_standing (fun w => h.standing tx _ w htask) (by simp)

/-- A side that pauses between its rows has its first one. -/
theorem hasFirst_of_pausing (h : t.Sound)
    (htask : t.tasks.get? tx = some ⟨d, .pause c.pause (c.asking d)⟩)
    (hheld : t.store.locks.holders.get? (c.row d) = some tx) : c.HasFirst t d :=
  ⟨tx, _, htask, isBlocked_of_pausing h htask, Or.inl rfl, hheld⟩

/-- The two sides are begun one after the other. -/
theorem start_eq {s s₁ s₂ : Service} {forward backward : CrossingSide}
    (hforward : CrossingSide.start (Work.crossing (c.row .forward) (c.row .backward)
      (c.amount .forward) c.pause) s = (forward, s₁))
    (hbackward : CrossingSide.start (Work.crossing (c.row .backward) (c.row .forward)
      (c.amount .backward) c.pause) s₁ = (backward, s₂)) :
    Crossing.start (c.row .forward) (c.row .backward) (c.amount .forward) (c.amount .backward)
      c.pause s = ⟨s₂, forward, backward⟩ := by
  simp only [Crossing.start, hforward, hbackward]

theorem launched_advances (more : List TxId) :
    (more.map Turn.advance : List (Turn Direction)).filterMap Turn.launched? = [] := by
  rw [List.filterMap_eq_nil_iff]
  intro turn hturn
  rcases List.mem_map.1 hturn with ⟨tx, _, rfl⟩
  rfl

theorem launched_append (label : Direction) (more : List TxId) :
    ((.launch label :: more.map .advance : List (Turn Direction)).filterMap Turn.launched?) =
      [label] := by
  simp only [List.filterMap_cons, Turn.launched?, launched_advances]

theorem allows_launched (c : Standoff) {label : Direction} {more : List TxId}
    {turn : Turn Direction} (hturn : turn ∈ (.launch label :: more.map .advance)) :
    c.Allows turn := by
  rcases List.mem_cons.1 hturn with rfl | hturn
  · trivial
  · rcases List.mem_map.1 hturn with ⟨tx, _, rfl⟩
    trivial

-- The forward side runs until it pauses, then the backward side does. Neither asks for its second
-- row before its pause is over.
/-- Two sides that pause meet. -/
theorem exists_met {s : Store} (h : c.Awaits s) (hpause : c.pause ≠ 0) :
    ∃ first : List (Turn Direction), (∀ turn ∈ first, c.Allows turn) ∧
      (first.filterMap Turn.launched?).Nodup ∧
      (∀ d, c.HasFirst ((Traffic.ofStore s).after c.operation first) d) ∧
      ∃ (p q : TxId) (s' : Service), Crossing.start (c.row .forward) (c.row .backward)
          (c.amount .forward) (c.amount .backward) c.pause (.ofStore s) =
        ⟨s', ⟨p, .pausing c.pause (c.asking .forward)⟩,
          ⟨q, .pausing c.pause (c.asking .backward)⟩⟩ ∧
      Crossing.Mirrors c.operation (.ofStore s) first
        ⟨s', ⟨p, .pausing c.pause (c.asking .forward)⟩,
          ⟨q, .pausing c.pause (c.asking .backward)⟩⟩ := by
  rcases exists_paused .forward (.ofStore s) hpause rfl (h.free _) (h.there _) with
    ⟨more₁, hstart₁, hplan₁, hwith₁, htask₁, _⟩
  generalize hturns₁ : Turn.launch Direction.forward :: more₁.map Turn.advance = turns₁
    at hstart₁ hplan₁ hwith₁ htask₁
  generalize ht₁ :
    (Traffic.ofStore s).after c.operation turns₁ = t₁ at hstart₁ hplan₁ hwith₁ htask₁
  have hfree₁ : t₁.store.locks.holders.get? (c.row .backward) = none := by
    rw [hwith₁.holders, if_neg (by simpa using c.distinct.symm)]
    exact h.free .backward
  have hthere₁ : (t₁.store.accounts.get? (c.row .backward)).isSome = true := by
    rw [hwith₁.accounts]
    exact h.there .backward
  rcases exists_paused .backward t₁ hpause hplan₁ hfree₁ hthere₁ with
    ⟨more₂, hstart₂, _, hwith₂, htask₂, hothers₂⟩
  generalize hturns₂ : Turn.launch Direction.backward :: more₂.map Turn.advance = turns₂
    at hstart₂ hwith₂ htask₂ hothers₂
  generalize ht₂ : t₁.after c.operation turns₂ = t₂ at hstart₂ hwith₂ htask₂ hothers₂
  have hne : t₁.service.start.1 ≠ s.start.1 := by
    have hbegun : t₁.store.begun = s.begun + 1 := hwith₁.begun
    change t₁.store.begun + 1 ≠ s.begun + 1
    omega
  have hfirst : t₂.tasks.get? s.start.1 = some ⟨.forward, .pause c.pause (c.asking .forward)⟩ :=
    (hothers₂ _ hne).trans htask₁
  have hafter : (Traffic.ofStore s).after c.operation (turns₁ ++ turns₂) = t₂ := by
    rw [Traffic.after_append, ht₁, ht₂]
  have hsound : t₂.Sound := by
    rw [← hafter]
    exact Traffic.sound_after (Traffic.sound_ofStore h.consistent) _
  have hcrossing : Crossing.start (c.row .forward) (c.row .backward) (c.amount .forward)
      (c.amount .backward) c.pause (.ofStore s) =
      ⟨t₂.service, ⟨s.start.1, .pausing c.pause (c.asking .forward)⟩,
        ⟨t₁.service.start.1, .pausing c.pause (c.asking .backward)⟩⟩ :=
    start_eq hstart₁ hstart₂
  refine ⟨turns₁ ++ turns₂, ?_, ?_, ?_, s.start.1, t₁.service.start.1, t₂.service, hcrossing, ?_⟩
  · intro turn hturn
    rcases List.mem_append.1 hturn with hturn | hturn
    · exact allows_launched c (hturns₁ ▸ hturn)
    · exact allows_launched c (hturns₂ ▸ hturn)
  · rw [List.filterMap_append, ← hturns₁, ← hturns₂, launched_append, launched_append]
    decide
  · rw [hafter]
    intro d
    cases d with
    | forward =>
        refine hasFirst_of_pausing hsound hfirst ?_
        have hheld : t₁.store.locks.holders.get? (c.row .forward) = some s.start.1 := by
          rw [hwith₁.holders, if_pos (by simp)]
          rfl
        rw [hwith₂.holders, if_neg (by simpa using c.distinct)]
        exact hheld
    | backward =>
        refine hasFirst_of_pausing hsound htask₂ ?_
        rw [hwith₂.holders, if_pos (by simp)]
  · refine ⟨by rw [hafter], fun d => ?_, fun d outcome hended => ?_, Crossing.eq_of_tx_eq hne⟩
    · cases d with
      | forward => exact hafter ▸ hfirst
      | backward => exact hafter ▸ htask₂
    · cases d with
      | forward => cases hended
      | backward => cases hended

theorem At.label_of_task (h : c.At d t p x) {task : Task Direction}
    (htask : t.tasks.get? p = some task) : task.label = d := by
  rw [h.task, Option.map_eq_some_iff] at htask
  rcases htask with ⟨_, _, rfl⟩
  rfl

/-- A side whose task is at its pause pauses. -/
theorem At.eq_pausing (h : c.At d t p x) (hx : x.Holding)
    (htask : t.tasks.get? p = some ⟨d, .pause c.pause (c.asking d)⟩) : x = .pausing := by
  cases hx with
  | pausing => rfl
  | asking =>
      rw [h.task_of_work rfl, Option.some.injEq, Task.mk.injEq] at htask
      cases htask.2

namespace Standing

theorem service_pausing (h : c.Standing t d p q .pausing y) :
    (t.step c.operation (.advance p)).2.service = t.service := by
  rw [h.mine.step_eq (w := .pause c.pause (c.asking d)) rfl (by simp) (by simp)]
  rfl

theorem service_leaving {outcome : Except Failure Unit}
    (h : c.Standing t d p q (.leaving outcome) y) :
    (t.step c.operation (.advance p)).2.service = t.service.drop p := by
  rw [Traffic.step, h.mine.task_of_work rfl]
  rfl

/-- A side that is answered is run on from where it has come to. -/
theorem run_eq (h : c.Standing t d p q x y) {w w' : Work Unit} (hwork : x.work c d = some w)
    (hcalls : w.Calls) (h' : c.Standing (t.step c.operation (.advance p)).2 d p q x' y')
    (hwork' : x'.work c d = some w') (hmoves : w' ≠ w) :
    w.run p t.service = w'.run p (t.step c.operation (.advance p)).2.service := by
  have hdone : ∀ outcome, w ≠ .done outcome := by
    rintro outcome rfl
    exact hcalls
  have hcrash : w ≠ .crash := by
    rintro rfl
    exact hcalls
  have htask := h'.mine.task_of_work hwork'
  rw [h.mine.step_eq hwork hdone hcrash] at htask ⊢
  rw [Table.get?_insert, if_pos rfl, Option.some.injEq, Task.mk.injEq] at htask
  rw [← htask.2]
  exact Work.run_step hcalls (htask.2 ▸ hmoves)

end Standing

theorem writingLast_ne (c : Standoff) (d : Direction) : c.writingLast d ≠ c.writing d := by
  intro hsame
  injection hsame with hrequest
  injection hrequest with hrow
  exact c.row_ne d hrow.symm

/-- A side that is taken up after its pause while the other one pauses stops at its second row. -/
theorem resume_taken (h : c.Standing t d p q .pausing .pausing) :
    let t' := t.after c.operation [.advance p, .advance p]
    ∃ next, c.asking d = .request (.query (c.row d.other)) next ∧
      (CrossingSide.mk p (.pausing c.pause (c.asking d))).resume t.service =
        (⟨p, .blocked (.query (c.row d.other)) next⟩, t'.service) ∧
      c.Standing t' d p q (.waiting false) .pausing := by
  have hstays : ∀ {z : Place}, (z = .pausing ∨ z = Place.wake .pausing) → z = .pausing :=
    fun hz => hz.elim id id
  rcases (move_pausing h rfl).standing with ⟨_, hy, hasks⟩
  cases hstays hy
  rcases (move_taken hasks .asking rfl (by simp) rfl).standing with ⟨_, hy, hwaits⟩
  cases hstays hy
  have hstep := hasks.mine.step_eq (w := c.asking d) rfl (by rintro _ ⟨⟩) (by rintro ⟨⟩)
  have htask := hwaits.mine.task_of_work (w := c.asking d) rfl
  rw [hstep, Table.get?_insert, if_pos rfl, Option.some.injEq, Task.mk.injEq] at htask
  have hrun := Work.run_of_stays htask.2 (by rintro (_ | _) ⟨⟩)
  refine ⟨_, rfl, ?_, hwaits⟩
  rw [h.service_pausing] at hrun
  refine (congrArg (CrossingSide.after p) hrun).trans ?_
  change _ = ((_, (Traffic.step c.operation _ _).2.service) : CrossingSide × Service)
  rw [hstep, h.service_pausing]
  rfl

/-- A side that is taken up after its pause while the other one waits closes the cycle and is rolled
back. -/
theorem resume_struck {woken : Bool} (h : c.Standing t d p q .pausing (.waiting woken)) :
    let t' := t.after c.operation [.advance p, .advance p, .advance p, .advance p]
    (CrossingSide.mk p (.pausing c.pause (c.asking d))).resume t.service =
        (⟨p, .ended (.error (c.fault d p q))⟩, t'.service) ∧
      c.Standing t' d p q (.gone (.error (c.fault d p q))) (.waiting true) := by
  rcases (move_pausing h rfl).standing with ⟨_, hy, hasks⟩
  rcases Place.waiting_of_woken hy with ⟨_, rfl⟩
  rcases (move_cycle hasks rfl rfl).standing with ⟨_, hy, hfails⟩
  rcases Place.waiting_of_woken hy with ⟨_, rfl⟩
  rcases move_retreating hfails rfl with ⟨_, _, _, hleaves⟩
  rcases move_leaving hleaves rfl with ⟨_, _, _, hgone⟩
  have hrun₁ := hasks.run_eq (w := c.asking d) rfl trivial hfails rfl (by rintro ⟨⟩)
  have hrun₂ := hfails.run_eq rfl trivial hleaves rfl (by rintro ⟨⟩)
  rw [h.service_pausing] at hrun₁
  refine ⟨?_, hgone⟩
  change CrossingSide.after p ((c.asking d).run p t.service) =
    (_, (Traffic.step c.operation _ _).2.service)
  rw [hrun₁.trans hrun₂, hleaves.service_leaving]
  rfl

/-- A side that is taken up when the other one has been rolled back runs to its end. -/
theorem resume_relieved {outcome : Except Failure Unit} {r : Request}
    {next : Except StoreFault Decimal → Work Unit} (hasking : c.asking d = .request r next)
    (h : c.Standing t d p q (.waiting true) (.gone outcome)) :
    let t' := t.after c.operation
      [.advance p, .advance p, .advance p, .advance p, .advance p]
    ∃ outcome', (CrossingSide.mk p (.blocked r next)).resume t.service =
        (⟨p, .ended outcome'⟩, t'.service) ∧
      c.Standing t' d p q (.gone outcome') (.gone outcome) := by
  have hstays : ∀ {z : Place}, (z = .gone outcome ∨ z = Place.wake (.gone outcome)) →
      z = .gone outcome := fun hz => hz.elim id id
  rcases (move_free h .woken .gone).standing with ⟨_, hy, hwrites⟩
  cases hstays hy
  rcases (move_writing hwrites rfl).standing with ⟨_, hy, hlast⟩
  cases hstays hy
  rcases (move_writingLast hlast rfl).standing with ⟨_, hy, hcommits⟩
  cases hstays hy
  rcases move_committing hcommits rfl with ⟨_, _, hleaves⟩
  rcases move_leaving hleaves rfl with ⟨_, _, _, hgone⟩
  have hrun₁ := h.run_eq (w := c.asking d) rfl trivial hwrites rfl (by rintro ⟨⟩)
  have hrun₂ := hwrites.run_eq (w := c.writing d) rfl trivial hlast rfl (c.writingLast_ne d)
  have hrun₃ := hlast.run_eq (w := c.writingLast d) rfl trivial hcommits rfl (by rintro ⟨⟩)
  have hrun₄ := hcommits.run_eq rfl trivial hleaves rfl (by rintro ⟨⟩)
  refine ⟨_, ?_, hgone⟩
  change CrossingSide.after p (Work.run p (.request r next) t.service) =
    (_, (Traffic.step c.operation _ _).2.service)
  rw [← hasking, hrun₁.trans (hrun₂.trans (hrun₃.trans hrun₄)), hleaves.service_leaving]
  rfl

-- The backward side is taken up first and stops at the row of the forward one, which closes the
-- cycle when its turn comes. The clock then takes up the backward side again.
/-- The clock takes two sides that both pause to their ends. -/
theorem exists_played (h : c.Standing t .forward p q .pausing .pausing) :
    ∃ more : List TxId, (t.after c.operation (more.map .advance)).Exhausted ∧
      (t.after c.operation (more.map .advance)).service =
        (Crossing.Timed.play Crossing.maxStops
          ⟨⟨t.service, ⟨p, .pausing c.pause (c.asking .forward)⟩,
            ⟨q, .pausing c.pause (c.asking .backward)⟩⟩,
            0, c.pause, c.pause⟩).crossing.service ∧
      (Crossing.Timed.play Crossing.maxStops
          ⟨⟨t.service, ⟨p, .pausing c.pause (c.asking .forward)⟩,
            ⟨q, .pausing c.pause (c.asking .backward)⟩⟩,
            0, c.pause, c.pause⟩).crossing.outcome = .error (c.fault .forward p q) := by
  rcases resume_taken h.swap with ⟨next, hasking, hstops, hwaits⟩
  generalize ht₁ : t.after c.operation [.advance q, .advance q] = t₁ at hstops hwaits
  rcases resume_struck hwaits.swap with ⟨hfails, hstruck⟩
  generalize ht₂ :
    t₁.after c.operation [.advance p, .advance p, .advance p, .advance p] = t₂ at hfails hstruck
  rcases resume_relieved hasking hstruck.swap with ⟨outcome, hends, hgone⟩
  generalize ht₃ : t₂.after c.operation
    [.advance q, .advance q, .advance q, .advance q, .advance q] = t₃ at hends hgone
  have hlast : t.after c.operation ([q, q, p, p, p, p, q, q, q, q, q].map .advance) = t₃ := by
    have hsplit : ([q, q, p, p, p, p, q, q, q, q, q].map .advance : List (Turn Direction)) =
        [.advance q, .advance q] ++ ([.advance p, .advance p, .advance p, .advance p] ++
          [.advance q, .advance q, .advance q, .advance q, .advance q]) := rfl
    rw [hsplit, Traffic.after_append, ht₁, Traffic.after_append, ht₂, ht₃]
  have hmeeting := Crossing.Timed.play_meeting hstops hfails hends
  refine ⟨[q, q, p, p, p, p, q, q, q, q, q], ?_, ?_, ?_⟩
  · rw [hlast]
    exact exhausted_of_no_task (hgone.no_task rfl rfl)
  · rw [hlast]
    exact (congrArg Crossing.service hmeeting).symm
  · exact congrArg Crossing.outcome hmeeting

/-- Sides that have met may go on in any order. -/
theorem faces_advances {s : Store} {first : List (Turn Direction)}
    (hallow : ∀ turn ∈ first, c.Allows turn) (honce : (first.filterMap Turn.launched?).Nodup)
    (hmet : ∀ d, c.HasFirst ((Traffic.ofStore s).after c.operation first) d)
    (more : List TxId) : c.Faces s (first ++ more.map .advance) := by
  refine ⟨?_, ?_, first, _, rfl, hmet⟩
  · intro turn hturn
    rcases List.mem_append.1 hturn with hturn | hturn
    · exact hallow turn hturn
    · rcases List.mem_map.1 hturn with ⟨tx, _, rfl⟩
      trivial
  · rw [List.filterMap_append, launched_advances, List.append_nil]
    exact honce

/-- Two sides that pause meet, whichever is taken up when. -/
theorem exists_taken_up {s : Store} (h : c.Awaits s) (hpause : c.pause ≠ 0)
    (order : List Direction) :
    ∃ turns : List (Turn Direction), c.Faces s turns ∧
      ((Traffic.ofStore s).after c.operation turns).store =
        (order.foldl Crossing.resume (Crossing.start (c.row .forward) (c.row .backward)
          (c.amount .forward) (c.amount .backward) c.pause (.ofStore s))).service.store := by
  rcases exists_met h hpause with ⟨first, hallow, honce, hmet, p, q, s', hstart, hmirrors⟩
  rcases Crossing.mirrors_foldl hmirrors order with ⟨more, hmore⟩
  refine ⟨first ++ more.map .advance, faces_advances hallow honce hmet more, ?_⟩
  rw [hstart]
  exact congrArg Service.store hmore.service

/-- Two sides that pause have come equally far when they have met. -/
theorem exists_pausing {s : Store} (h : c.Awaits s) (hpause : c.pause ≠ 0) :
    ∃ (first : List (Turn Direction)) (p q : TxId), (∀ turn ∈ first, c.Allows turn) ∧
      (first.filterMap Turn.launched?).Nodup ∧
      (∀ d, c.HasFirst ((Traffic.ofStore s).after c.operation first) d) ∧
      Crossing.start (c.row .forward) (c.row .backward) (c.amount .forward) (c.amount .backward)
          c.pause (.ofStore s) =
        ⟨((Traffic.ofStore s).after c.operation first).service,
          ⟨p, .pausing c.pause (c.asking .forward)⟩,
          ⟨q, .pausing c.pause (c.asking .backward)⟩⟩ ∧
      c.Standing ((Traffic.ofStore s).after c.operation first) .forward p q .pausing .pausing := by
  rcases exists_met h hpause with ⟨first, hallow, honce, hmet, p, q, s', hstart, hmirrors⟩
  rcases early_of_met h hallow honce hmet with ⟨hearly, _⟩
  rcases standing_of_hasFirst hearly hmet with ⟨p', q', x, y, hx, hy, hstanding⟩
  have hp := hmirrors.task .forward
  have hq := hmirrors.task .backward
  obtain rfl : p = p' := (hstanding.only p _ hp).resolve_right fun hc =>
    (Direction.ne_other .forward) (hstanding.theirs.label_of_task (hc ▸ hp))
  obtain rfl : q = q' := (hstanding.only q _ hq).resolve_left fun hc =>
    (Direction.ne_other .backward) (hstanding.mine.label_of_task (hc ▸ hq))
  cases hstanding.mine.eq_pausing hx hp
  cases hstanding.theirs.eq_pausing hy hq
  refine ⟨first, p, q, hallow, honce, hmet, ?_, hstanding⟩
  rw [hstart, hmirrors.service]

/-- On the clock two sides that pause meet, and come to their ends. -/
theorem exists_run {s : Store} (h : c.Awaits s) (hpause : c.pause ≠ 0) :
    ∃ turns : List (Turn Direction), c.Faces s turns ∧
      ((Traffic.ofStore s).after c.operation turns).Exhausted ∧
      ((Traffic.ofStore s).after c.operation turns).store =
        (Crossing.run (c.row .forward) (c.row .backward) (c.amount .forward) (c.amount .backward)
          c.pause (.ofStore s)).1.service.store := by
  rcases exists_pausing h hpause with ⟨first, p, q, hallow, honce, hmet, hstart, hstanding⟩
  rcases exists_played hstanding with ⟨more, hexhausted, hplayed, _⟩
  refine ⟨first ++ more.map .advance, faces_advances hallow honce hmet more, ?_, ?_⟩
  · rw [Traffic.after_append]
    exact hexhausted
  · rw [Traffic.after_append, Traffic.store, hplayed, Crossing.run, hstart]
    rfl

/-- On the clock it is the forward side that closes the cycle, so a conflict is what is returned of
the two. -/
theorem outcome_run {s : Store} (h : c.Awaits s) (hpause : c.pause ≠ 0) :
    ∃ text, (Crossing.run (c.row .forward) (c.row .backward) (c.amount .forward)
      (c.amount .backward) c.pause (.ofStore s)).1.outcome =
        .error (.conflict (.deadlock text)) := by
  rcases exists_pausing h hpause with ⟨first, p, q, _, _, _, hstart, hstanding⟩
  rcases exists_played hstanding with ⟨_, _, _, houtcome⟩
  rw [Crossing.run, hstart]
  exact ⟨_, houtcome⟩

end Standoff

end RowLedger
