import RowLedger.Crossing
import RowLedger.Proofs.Asking

/-!
# Crossing transfers in traffic

The two sides of a crossing are taken up now and then, and each time run until
they have to stop. In traffic they could do the same in turns of their own, so
a crossing whose sides have been taken up in any order is as far as some traffic
is, and a side that has ended there has returned its outcome. What is proved of
all traffic holds of a crossing for this reason, also on the clock, which is one
of the orders.

## Main definitions

* `Crossing.operation`: The two sides as operations.
* `Crossing.Mirrors`: Traffic that has come as far as a crossing.

## Theorems

* `mirrors_start`: The two sides can begin in turns of their own.
* `mirrors_resume`, `mirrors_foldl`: They can be taken up in any order.
* `exists_order`: The clock takes them up in some order.
-/

namespace RowLedger

theorem CrossingSide.hasEnded_iff {tx : TxId} {progress : Work.Progress Unit} :
    (CrossingSide.mk tx progress).hasEnded = true ↔
      (∃ outcome, progress = .ended outcome) ∨ progress = .crashed := by
  cases progress with
  | ended outcome => simp [hasEnded]
  | blocked => simp [hasEnded]
  | pausing => simp [hasEnded]
  | crashed => simp [hasEnded]

namespace Crossing

/-- The two sides as operations. -/
def operation (a b : AccountId) (forward backward : Decimal) (pause : Nat) :
    Direction → Operation
  | .forward => .inTransaction (Work.crossing a b forward pause)
  | .backward => .inTransaction (Work.crossing b a backward pause)

/-- The task of a side, unless it has ended. -/
def taskOf (side : CrossingSide) (d : Direction) : Option (Task Direction) :=
  if side.hasEnded then none else some ⟨d, side.progress.work⟩

/-- Two sides with two transactions are told apart by them. -/
theorem eq_of_tx_eq {c : Crossing} (hne : c.backward.tx ≠ c.forward.tx) (d e : Direction)
    (hsame : (c.side d).tx = (c.side e).tx) : d = e := by
  cases d with
  | forward =>
      cases e with
      | forward => rfl
      | backward => exact absurd hsame.symm hne
  | backward =>
      cases e with
      | forward => exact absurd hsame hne
      | backward => rfl

theorem resume_service (c : Crossing) (d : Direction) :
    (c.resume d).service = ((c.side d).resume c.service).2 := by
  cases d with
  | forward => rfl
  | backward => rfl

theorem resume_side (c : Crossing) (d e : Direction) :
    (c.resume d).side e = if e = d then ((c.side d).resume c.service).1 else c.side e := by
  cases d with
  | forward => cases e <;> rfl
  | backward => cases e <;> rfl

section Turns

variable (program : Direction → Operation) {t : Traffic Direction} {tx : TxId} {d : Direction}

/-- A side that is run until it has to stop can get there in turns of its own. If it ends, it
returns. -/
theorem exists_after {w : Work Unit} {s s' : Service} {progress : Work.Progress Unit}
    (hwalks : Work.Walks tx w s progress.work s') (hservice : t.service = s)
    (htask : t.tasks.get? tx = some ⟨d, w⟩) :
    ∃ more : List TxId,
      (t.after program (more.map .advance)).service =
        (CrossingSide.after tx (progress, s')).2 ∧
      (t.after program (more.map .advance)).tasks.get? tx =
        taskOf (CrossingSide.after tx (progress, s')).1 d ∧
      (∀ outcome, progress = .ended outcome →
        .returned d (some tx) outcome ∈ t.reports program (more.map .advance)) ∧
      ∀ other, tx ≠ other →
        (t.after program (more.map .advance)).tasks.get? other = t.tasks.get? other := by
  have hturns : ∃ more : List TxId, (t.after program (more.map .advance)).service = s' ∧
      (t.after program (more.map .advance)).tasks.get? tx = some ⟨d, progress.work⟩ ∧
      ∀ other, tx ≠ other →
        (t.after program (more.map .advance)).tasks.get? other = t.tasks.get? other :=
    Traffic.exists_advances hwalks hservice htask
  rcases hturns with ⟨more, hlast, htask', hothers⟩
  cases hended : (CrossingSide.mk tx progress).hasEnded with
  | false =>
      refine ⟨more, ?_, ?_, ?_, hothers⟩
      · rw [hlast, CrossingSide.after]
        simp only [hended, Bool.false_eq_true, ↓reduceIte]
      · rw [htask', CrossingSide.after, taskOf]
        simp only [hended, Bool.false_eq_true, ↓reduceIte]
      · rintro outcome rfl
        simp [CrossingSide.hasEnded] at hended
  | true =>
      -- One more turn closes the task.
      have hclose : ((t.after program (more.map .advance)).step program (.advance tx)).2 =
          (t.after program (more.map .advance)).close tx := by
        rw [Traffic.step, htask']
        rcases CrossingSide.hasEnded_iff.1 hended with ⟨outcome, rfl⟩ | rfl
        · rfl
        · rfl
      have hlast' : t.after program ((more ++ [tx]).map .advance) =
          (t.after program (more.map .advance)).close tx := by
        rw [List.map_append, Traffic.after_append, ← hclose]
        rfl
      refine ⟨more ++ [tx], ?_, ?_, ?_, ?_⟩
      · rw [hlast', Traffic.close, hlast, CrossingSide.after]
        simp only [hended, ↓reduceIte]
      · rw [hlast', Traffic.close, Table.get?_erase, if_pos rfl, CrossingSide.after, taskOf]
        simp only [hended, ↓reduceIte]
      · rintro outcome rfl
        have htold : ((t.after program (more.map .advance)).step program (.advance tx)).1 =
            [.returned d (some tx) outcome] := by
          rw [Traffic.step, htask']
          rfl
        rw [List.map_append, Traffic.reports_append, List.map_singleton, Traffic.reports, htold]
        exact List.mem_append_right _ List.mem_cons_self
      · intro other hne
        rw [hlast', Traffic.close, Table.get?_erase, if_neg hne]
        exact hothers other hne

/-- A side that begins and is run until it has to stop can do so in turns of its own. -/
theorem exists_launched (t : Traffic Direction) {w : Work Unit}
    (hprogram : program d = .inTransaction w) :
    ∃ more : List TxId,
      let turns := .launch d :: more.map .advance
      let side := CrossingSide.start w t.service
      (t.after program turns).service = side.2 ∧
      (t.after program turns).tasks.get? t.service.start.1 = taskOf side.1 d ∧
      (∀ outcome, side.1.progress = .ended outcome →
        .returned d (some t.service.start.1) outcome ∈ t.reports program turns) ∧
      ∀ other, t.service.start.1 ≠ other →
        (t.after program turns).tasks.get? other = t.tasks.get? other := by
  have hlaunch : t.step program (.launch d) =
      ([], ⟨t.service.start.2, t.tasks.insert t.service.start.1 ⟨d, w⟩⟩) := by
    rw [Traffic.step, hprogram]
  rcases exists_after program (t := (t.step program (.launch d)).2) (d := d)
    (Work.walks_run t.service.start.1 w t.service.start.2) (by rw [hlaunch])
    (by rw [hlaunch, Table.get?_insert, if_pos rfl]) with ⟨more, hlast, htask, htold, hothers⟩
  refine ⟨more, hlast, htask, fun outcome hended => ?_, fun other hne => ?_⟩
  · rw [Traffic.reports]
    exact List.mem_append_right _ (htold outcome hended)
  · refine (hothers other hne).trans ?_
    rw [hlaunch, Table.get?_insert, if_neg hne]

/-- What a side does that is taken up again it can do in turns of its own. -/
theorem exists_resumed {side : CrossingSide} (htask : t.tasks.get? side.tx = taskOf side d) :
    ∃ more : List TxId,
      (t.after program (more.map .advance)).service = (side.resume t.service).2 ∧
      (t.after program (more.map .advance)).tasks.get? side.tx =
        taskOf (side.resume t.service).1 d ∧
      (side.resume t.service).1.tx = side.tx ∧
      (∀ outcome, (side.resume t.service).1.progress = .ended outcome →
        side.progress = .ended outcome ∨
          .returned d (some side.tx) outcome ∈ t.reports program (more.map .advance)) ∧
      ∀ other, side.tx ≠ other →
        (t.after program (more.map .advance)).tasks.get? other = t.tasks.get? other := by
  rcases side with ⟨tx, progress⟩
  cases progress with
  | ended outcome => exact ⟨[], rfl, htask, rfl, fun _ h => Or.inl h, fun _ _ => rfl⟩
  | crashed => exact ⟨[], rfl, htask, rfl, fun _ h => Or.inl h, fun _ _ => rfl⟩
  | blocked r next =>
      rcases exists_after program (Work.walks_run tx (.request r next) t.service) rfl htask with
        ⟨more, hlast, htask', htold, hothers⟩
      exact ⟨more, hlast, htask', rfl, fun outcome h => Or.inr (htold outcome h), hothers⟩
  | pausing millis next =>
      have hwalks : Work.Walks tx (.pause millis next) t.service (next.run tx t.service).1.work
          (next.run tx t.service).2 := .goes (Work.walks_run tx next t.service)
      rcases exists_after program hwalks rfl htask with ⟨more, hlast, htask', htold, hothers⟩
      exact ⟨more, hlast, htask', rfl, fun outcome h => Or.inr (htold outcome h), hothers⟩

/-- Traffic that has come as far as a crossing. Sides that have ended have returned. -/
structure Mirrors (t : Traffic Direction) (turns : List (Turn Direction)) (c : Crossing) :
    Prop where
  service : (t.after program turns).service = c.service
  task : ∀ d, (t.after program turns).tasks.get? (c.side d).tx = taskOf (c.side d) d
  told : ∀ d outcome, (c.side d).progress = .ended outcome →
    .returned d (some (c.side d).tx) outcome ∈ t.reports program turns
  apart : ∀ d e, (c.side d).tx = (c.side e).tx → d = e

variable {program} {turns : List (Turn Direction)} {c : Crossing}

-- The side that is taken up is the only one that is different afterwards, and keeps its number.
theorem mirrors_resume (h : Mirrors program t turns c) (d : Direction) :
    ∃ more : List TxId, Mirrors program t (turns ++ more.map .advance) (c.resume d) := by
  rcases exists_resumed program (h.task d) with ⟨more, hlast, htask, htx, htold, hothers⟩
  rw [h.service] at hlast htask htx htold
  have hnumber : ∀ e, ((c.resume d).side e).tx = (c.side e).tx := by
    intro e
    rw [resume_side]
    split
    · rename_i heq
      rw [heq, htx]
    · rfl
  refine ⟨more, ?_, fun e => ?_, fun e outcome hended => ?_, fun e e' hsame => ?_⟩
  · rw [Traffic.after_append, hlast, resume_service]
  · rw [Traffic.after_append, hnumber, resume_side]
    split
    · rename_i heq
      rw [heq, htask]
    · rename_i hne
      exact (hothers _ fun hc => hne (h.apart d e hc).symm).trans (h.task e)
  · rw [Traffic.reports_append, hnumber, List.mem_append]
    rw [resume_side] at hended
    split at hended
    · rename_i heq
      subst heq
      rcases htold outcome hended with hbefore | hnow
      · exact Or.inl (h.told e outcome hbefore)
      · exact Or.inr hnow
    · exact Or.inl (h.told e outcome hended)
  · rw [hnumber, hnumber] at hsame
    exact h.apart e e' hsame

theorem begun_launched (h : t.Sound) {w : Work Unit} (hprogram : program d = .inTransaction w)
    (rest : List (Turn Direction)) :
    t.store.start.1 ≤ (t.after program (.launch d :: rest)).store.begun := by
  refine Nat.le_trans ?_ (Traffic.begun_after_le (Traffic.sound_step h (.launch d)) rest)
  rw [Traffic.step, hprogram]
  exact Nat.le_refl _

-- The second side begins when the first one has stopped for the first time.
/-- The sides of a crossing can begin in turns of their own. -/
theorem mirrors_start {s : Store} (hconsistent : s.Consistent) (a b : AccountId)
    (forward backward : Decimal) (pause : Nat) :
    ∃ turns, Mirrors (operation a b forward backward pause) (.ofStore s) turns
      (start a b forward backward pause (.ofStore s)) := by
  generalize hprogram : operation a b forward backward pause = program
  have hf : program .forward = .inTransaction (Work.crossing a b forward pause) := hprogram ▸ rfl
  have hg : program .backward = .inTransaction (Work.crossing b a backward pause) := hprogram ▸ rfl
  have hsound : (Traffic.ofStore s : Traffic Direction).Sound := Traffic.sound_ofStore hconsistent
  rcases exists_launched program (.ofStore s) hf with ⟨more, hlast, htask, htold, _⟩
  have hbegun := begun_launched hsound hf (more.map .advance)
  generalize hturns : Turn.launch Direction.forward :: more.map Turn.advance = turns
    at hlast htask htold hbegun
  generalize ht : (Traffic.ofStore s).after program turns = t at hlast htask hbegun
  rcases exists_launched program t hg with ⟨more', hlast', htask', htold', hothers⟩
  generalize hturns' : Turn.launch Direction.backward :: more'.map Turn.advance = turns'
    at hlast' htask' htold' hothers
  have hstart : start a b forward backward pause (.ofStore s) =
      ⟨(CrossingSide.start (Work.crossing b a backward pause) t.service).2,
        (CrossingSide.start (Work.crossing a b forward pause) (.ofStore s)).1,
        (CrossingSide.start (Work.crossing b a backward pause) t.service).1⟩ := by
    rw [hlast]
    rfl
  have hne : t.service.start.1 ≠ s.start.1 := (Nat.lt_succ_of_le hbegun).ne'
  rw [hstart]
  refine ⟨turns ++ turns', ?_, fun d => ?_, fun d outcome hended => ?_, eq_of_tx_eq hne⟩
  · rw [Traffic.after_append, ht, hlast']
  · rw [Traffic.after_append, ht]
    cases d with
    | forward => exact (hothers _ hne).trans htask
    | backward => exact htask'
  · rw [Traffic.reports_append, ht, List.mem_append]
    cases d with
    | forward => exact Or.inl (htold outcome hended)
    | backward => exact Or.inr (htold' outcome hended)

/-- The sides of a crossing can be taken up in any order. -/
theorem mirrors_foldl (h : Mirrors program t turns c) (order : List Direction) :
    ∃ more : List TxId,
      Mirrors program t (turns ++ more.map .advance) (order.foldl resume c) := by
  induction order generalizing turns c with
  | nil => exact ⟨[], by rwa [List.map_nil, List.append_nil]⟩
  | cons d rest ih =>
      rcases mirrors_resume h d with ⟨first, hfirst⟩
      rcases ih hfirst with ⟨more, hmore⟩
      refine ⟨first ++ more, ?_⟩
      rw [List.map_append, ← List.append_assoc]
      exact hmore

end Turns

/-- On the clock the sides are taken up in some order. -/
theorem exists_order (times : Nat) (timed : Timed) : ∃ order : List Direction,
    (timed.play times).crossing = order.foldl resume timed.crossing := by
  induction times generalizing timed with
  | zero => exact ⟨[], rfl⟩
  | succ times ih =>
      rw [Timed.play]
      cases timed.next? with
      | none => exact ⟨[], rfl⟩
      | some next =>
          rcases next with ⟨d, instant⟩
          rcases ih (timed.resume d instant) with ⟨order, horder⟩
          refine ⟨d :: order, horder.trans ?_⟩
          cases d with
          | forward => rfl
          | backward => rfl

end Crossing

end RowLedger
