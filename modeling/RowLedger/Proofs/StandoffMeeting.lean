import RowLedger.Proofs.StandoffPhases

/-!
# Two sides that meet

Two sides meet if at some time both have their first rows and neither has asked
for its second one. Until then nothing can go wrong: a side that begins finds
its first row free, since the other side asks for that row only later and all
others keep away. Nothing is returned, and nothing changes in the accounts.

A side that has asked for its second row never comes back to where it has not,
so two sides that meet have not asked before, in whatever turns they have come
there. From there on they stand to each other as the phases say.

## Main definitions

* `Standoff.Early`: Neither side has asked for its second row.
* `Standoff.HasAsked`, `Standoff.HasFirst`: A side before and after that.
* `Standoff.Faces`: Turns in which the sides meet.
* `Standoff.Awaits`: A store in which nobody uses the two rows.

## Theorems

* `early_step`: Neither side has asked, or it is too late to meet.
* `hasAsked_step`: A side that has asked has asked.
* `early_of_met`, `stage_of_faces`: Sides that meet stand to each other as those
  who have met do.
-/

namespace RowLedger

/-- What a turn launches. -/
def Turn.launched? {ι : Type} : Turn ι → Option ι
  | .launch label => some label
  | .event _ | .advance _ | .cut _ => none

namespace Standoff

variable {c : Standoff} {s₀ : Store} {d : Direction} {t : Traffic Direction} {tx : TxId}
  {x : Place} {turn : Turn Direction}

/-- A side has not been launched. -/
def Absent (t : Traffic Direction) (d : Direction) : Prop :=
  ∀ tx task, t.tasks.get? tx = some task → task.label ≠ d

/-- A side that has yet to ask for its second row. -/
inductive Place.Early : Place → Prop where
  | opening : Early .opening
  | pausing : Early .pausing
  | asking : Early .asking

/-- No side has asked for its second row yet. -/
structure Early (c : Standoff) (s₀ : Store) (t : Traffic Direction) : Prop where
  calm : c.Calm t
  untouched : Untouched s₀ t
  /-- No side has two tasks. -/
  unique : ∀ tx tx' task task', t.tasks.get? tx = some task → t.tasks.get? tx' = some task' →
    task.label = task'.label → tx = tx'
  sides : ∀ tx task, t.tasks.get? tx = some task →
    ∃ x : Place, x.Early ∧ c.At task.label t tx x

/-- What a side has left to do once it has been answered about its second row. -/
inductive Past (c : Standoff) (d : Direction) : Work Unit → Prop where
  | writing : Past c d (c.writing d)
  | writingLast : Past c d (c.writingLast d)
  | concluding (outcome : Except Failure Unit) : Past c d (.conclude outcome)
  | done (outcome : Except Failure Unit) : Past c d (.done outcome)

/-- A side, if it is there, has asked for its second row. -/
def HasAsked (c : Standoff) (t : Traffic Direction) (d : Direction) : Prop :=
  ∀ tx task, t.tasks.get? tx = some task → task.label = d →
    c.Past d task.work ∨ task.work = c.asking d ∧ t.store.isBlocked tx = true

/-- A side has its first row and has yet to ask for the second one. -/
def HasFirst (c : Standoff) (t : Traffic Direction) (d : Direction) : Prop :=
  ∃ tx work, t.tasks.get? tx = some ⟨d, work⟩ ∧ t.store.isBlocked tx = false ∧
    (work = .pause c.pause (c.asking d) ∨ work = c.asking d) ∧
    t.store.locks.holders.get? (c.row d) = some tx

theorem past_moved {s s' : Store} {work work' : Work Unit} (h : c.Past d work)
    (hmoved : work.Moved tx s (work', s')) : c.Past d work' := by
  cases h with
  | writing =>
      cases hmoved with
      | @answered _ _ answer _ =>
          cases answer with
          | ok => exact .writingLast
          | error fault => exact .concluding (.error (.ofStoreFault fault))
      | waiting => exact .writing
  | writingLast =>
      cases hmoved with
      | @answered _ _ answer _ =>
          cases answer with
          | ok => exact .concluding (.ok ())
          | error fault => exact .concluding (.error (.ofStoreFault fault))
      | waiting => exact .writingLast
  | concluding outcome =>
      cases outcome with
      | ok =>
          cases hmoved with
          | committed =>
              cases (s.commit tx).1 with
              | ok => exact .done _
              | error => exact .done _
      | error =>
          cases hmoved with
          | rolledBack => exact .done _
  | done =>
      cases hmoved with
      | ended => exact .done _

/-- A side that asks is answered, or it waits. -/
theorem asked_moved {s' : Store} {work : Work Unit} (h : t.Sound)
    (htask : t.tasks.get? tx = some ⟨d, c.asking d⟩) {o : OpenTx}
    (hlive : t.store.live.get? tx = some o)
    (hmoved : (c.asking d).Moved tx t.store (work, s')) :
    c.Past d work ∨ work = c.asking d ∧ s'.isBlocked tx = true := by
  have hstands := h.stands htask (r := .query (c.row d.other)) rfl
  cases hmoved with
  | @answered _ _ answer _ =>
      cases answer with
      | ok => exact Or.inl .writing
      | error fault => exact Or.inl (.concluding (.error (.ofStoreFault fault)))
  | waiting hwait =>
      refine Or.inr ⟨rfl, Store.isBlocked_of_waiting h.consistent hlive ?_ hwait⟩
      exact fun w hb => hstands w (Store.wait?_eq_some_iff.2 ⟨o, hlive, hb⟩)

/-- A side that has asked has asked. -/
theorem hasAsked_step (h : t.Sound) (hasked : c.HasAsked t d) (hallow : c.Allows turn)
    (hlaunch : turn ≠ .launch d) : c.HasAsked (t.step c.operation turn).2 d := by
  have hturned := Traffic.turned c.operation h.plan turn
  generalize t.step c.operation turn = result at hturned
  intro tx task htask hlabel
  have hafter := Traffic.taskTurned hturned htask
  have hkept : t.tasks.get? tx = some task → turn ≠ .advance tx → turn ≠ .cut tx →
      c.Past d task.work ∨ task.work = c.asking d ∧ result.2.store.isBlocked tx = true := by
    intro hbefore hadvance hcut
    rcases hasked tx task hbefore hlabel with hpast | ⟨hwork, hblocked⟩
    · exact Or.inl hpast
    · refine Or.inr ⟨hwork, ?_⟩
      rcases Traffic.turned_store h hturned with hsame | ⟨e, hstep, hbehind⟩
      · rw [hsame]
        exact hblocked
      · rcases Option.isSome_iff_exists.1 hblocked with ⟨w, hw⟩
        rcases Store.wait?_kept h.consistent hw (hbehind.tx?_ne hbefore hadvance hcut) with
          ⟨w', hw', _⟩
        rw [hstep, Store.isBlocked, hw']
        rfl
  generalize result.2 = t' at hafter hkept
  cases hafter with
  | still _ hbefore => exact hasked tx task hbefore hlabel
  | apart hbefore hadvance hcut => exact hkept hbefore hadvance hcut
  | launched _ _ _ hnew =>
      rw [hnew] at hlabel
      exact absurd (hlabel ▸ rfl) hlaunch
  | @moved before work _ hbefore hmoved hwork =>
      rw [hwork] at hlabel ⊢
      rcases hasked tx before hbefore hlabel with hpast | ⟨hwaits, hblocked⟩
      · exact Or.inl (past_moved hpast hmoved)
      · rcases Option.isSome_iff_exists.1 hblocked with ⟨w, hw⟩
        rcases Store.wait?_eq_some_iff.1 hw with ⟨o, hlive, _⟩
        have hbefore' : t.tasks.get? tx = some ⟨d, c.asking d⟩ := by
          rw [hbefore, ← hwaits, ← show before.label = d from hlabel]
        rw [hwaits] at hmoved
        exact asked_moved h hbefore' hlive hmoved

/-- Only a launch brings a side in. -/
theorem absent_step (h : t.Sound) (habsent : Absent t d) (hlaunch : turn ≠ .launch d) :
    Absent (t.step c.operation turn).2 d := by
  have hturned := Traffic.turned c.operation h.plan turn
  generalize t.step c.operation turn = result at hturned
  intro tx task htask hlabel
  have hafter := Traffic.taskTurned hturned htask
  generalize result.2 = t' at hafter
  cases hafter with
  | still _ hbefore => exact habsent tx task hbefore hlabel
  | apart hbefore => exact habsent tx task hbefore hlabel
  | launched _ _ _ hnew =>
      rw [hnew] at hlabel
      exact hlaunch (hlabel ▸ rfl)
  | moved hbefore _ hwork =>
      rw [hwork] at hlabel
      exact habsent tx _ hbefore hlabel

/-- What a side has left to do when it has its first row. -/
def rested (c : Standoff) (d : Direction) : Work Unit :=
  if c.pause = 0 then c.asking d else .pause c.pause (c.asking d)

/-- What a side goes on to when it has been told about its first row. -/
def onward (c : Standoff) (d : Direction) : Except Failure Decimal → Work Unit
  | .ok _ => c.rested d
  | .error e => .conclude (.error e)

theorem crossing_eq (c : Standoff) (d : Direction) :
    Work.crossing (c.row d) (c.row d.other) (c.amount d) c.pause =
      (Work.query (c.row d)).settle (c.onward d) := by
  rw [Work.crossing]
  refine congrArg (Work.request _) ?_
  funext answer
  cases answer with
  | error fault => rfl
  | ok amount =>
      change Work.concluded (Work.wait c.pause >>= fun _ => _) = c.rested d
      rw [Work.wait, rested]
      split
      · rfl
      · rfl

/-- A side begins by asking for its first row. -/
theorem exists_opening (c : Standoff) (d : Direction) :
    ∃ next, Place.opening.work c d = some (.request (.query (c.row d)) next) ∧
      ∀ amount, next (.ok amount) = c.rested d :=
  ⟨_, congrArg some (crossing_eq c d), fun _ => rfl⟩

/-- Where a side stands when it has its first row. -/
theorem exists_rested (c : Standoff) (d : Direction) :
    ∃ x : Place, x.Holding ∧ x.work c d = some (c.rested d) := by
  rw [rested]
  split
  · exact ⟨.asking, .asking, rfl⟩
  · exact ⟨.pausing, .pausing, rfl⟩

theorem Place.Early.wake_eq (h : x.Early) : x.wake = x := by
  cases h <;> rfl

theorem Place.Holding.early (h : x.Holding) : x.Early := by
  cases h with
  | pausing => exact .pausing
  | asking => exact .asking

/-- A side that has yet to begin finds its first row free. -/
theorem Early.free (h : Early c s₀ t) (hat : c.At d t tx .opening) :
    t.store.locks.holders.get? (c.row d) = none := by
  rw [Option.eq_none_iff_forall_ne_some]
  intro other hheld
  rcases (h.calm.sound.consistent.holder_iff _ other).1 hheld with ⟨o, hlive, hmem⟩
  cases hother : t.tasks.get? other with
  | none => exact (h.calm.spared other o hother hlive d).held hmem
  | some task =>
      rcases h.sides other task hother with ⟨x, hx, hat'⟩
      by_cases hlabel : task.label = d
      · -- It is this side itself, and it has no rows yet.
        have htask : t.tasks.get? tx = some ⟨d, _⟩ := hat.task_of_work rfl
        have hsame : other = tx := h.unique other tx task _ hother htask hlabel
        rw [hsame, hat.record] at hlive
        cases hlive
        simp [OpenTx.fresh] at hmem
      · have hlabel' : task.label = d.other :=
          (Direction.eq_or_other task.label d).resolve_left hlabel
        rw [hat'.record, hlabel'] at hlive
        cases hx with
        | opening =>
            cases hlive
            simp [OpenTx.fresh] at hmem
        | pausing =>
            cases hlive
            exact c.row_ne d (List.mem_singleton.1 hmem)
        | asking =>
            cases hlive
            exact c.row_ne d (List.mem_singleton.1 hmem)

section Step

variable (h : Early c s₀ t)
include h

/-- The others stand where they stood. -/
theorem early_of_own (hallow : c.Allows turn) (hsame : Untouched s₀ (t.step c.operation turn).2)
    (hunique : ∀ tx tx' task task', (t.step c.operation turn).2.tasks.get? tx = some task →
      (t.step c.operation turn).2.tasks.get? tx' = some task' → task.label = task'.label →
      tx = tx')
    (hown : ∀ tx task, (t.step c.operation turn).2.tasks.get? tx = some task →
      (∃ task₀, t.tasks.get? tx = some task₀ ∧ task₀.label = task.label ∧
        turn ≠ .advance tx) ∨
        ∃ x : Place, x.Early ∧ c.At task.label (t.step c.operation turn).2 tx x) :
    Early c s₀ (t.step c.operation turn).2 := by
  refine ⟨calm_step h.calm hallow, hsame, hunique, ?_⟩
  intro tx task htask
  rcases hown tx task htask with ⟨task₀, htask₀, hlabel, hne⟩ | hat
  · rcases h.sides tx task₀ htask₀ with ⟨x, hx, hat⟩
    rcases at_step h.calm hat hallow hne with ⟨x', hx', hat'⟩
    rw [hx.wake_eq, or_self] at hx'
    exact ⟨x, hx, hlabel ▸ hx' ▸ hat'⟩
  · exact hat

theorem early_event {e : Event} (haside : c.Aside e) :
    Early c s₀ (t.step c.operation (.event e)).2 := by
  have htasks : (t.step c.operation (.event e)).2.tasks = t.tasks := by
    rw [Traffic.step]
    split
    · rfl
    · rfl
  rcases untouched_event (t := t) haside with ⟨haccounts, hdue⟩
  refine early_of_own h haside (h.untouched.keep haccounts hdue) ?_ ?_
  · rw [htasks]
    exact h.unique
  · rw [htasks]
    exact fun tx task htask => Or.inl ⟨task, htask, rfl, by simp⟩

/-- A side is launched. -/
theorem early_launch (habsent : Absent t d) :
    Early c s₀ (t.step c.operation (.launch d)).2 := by
  have hnew : ∀ {tx task}, (t.step c.operation (.launch d)).2.tasks.get? tx = some task →
      (tx = t.store.begun + 1 ∧ task.label = d) ∨ t.tasks.get? tx = some task := by
    intro tx task htask
    have hget : (t.tasks.insert (t.store.begun + 1) ⟨d, _⟩).get? tx = some task := htask
    rw [Table.get?_insert] at hget
    by_cases heq : t.store.begun + 1 = tx
    · rw [if_pos heq, Option.some.injEq] at hget
      exact Or.inl ⟨heq.symm, hget ▸ rfl⟩
    · rw [if_neg heq] at hget
      exact Or.inr hget
  have hallow : c.Allows (.launch d) := trivial
  refine early_of_own h hallow ⟨h.untouched.accounts, h.untouched.due⟩ ?_ ?_
  · intro tx tx' task task' htask htask' hlabel
    rcases hnew htask with ⟨rfl, hd⟩ | hold
    · rcases hnew htask' with ⟨rfl, _⟩ | hold'
      · rfl
      · exact absurd (hlabel.symm.trans hd) (habsent tx' task' hold')
    · rcases hnew htask' with ⟨rfl, hd⟩ | hold'
      · exact absurd (hlabel.trans hd) (habsent tx task hold)
      · exact h.unique tx tx' task task' hold hold' hlabel
  · intro tx task htask
    rcases hnew htask with ⟨rfl, rfl⟩ | hold
    · refine Or.inr ⟨.opening, .opening, Nat.le_refl _, ?_, ?_, ?_⟩
      · exact (Table.get?_insert ..).trans (if_pos rfl)
      · exact (Store.live_start t.store _).trans (if_pos rfl)
      · -- The number is new, so nobody with it can have waited.
        have hunused : t.store.live.get? (t.store.begun + 1) = none := by
          rw [Option.eq_none_iff_forall_ne_some]
          intro o ho
          exact Nat.not_succ_le_self _ (h.calm.sound.consistent.live_le _ o ho)
        have hwaits := Store.waits_of_ended h.calm.sound.consistent hunused
        exact hwaits
    · exact Or.inl ⟨task, hold, rfl, by simp⟩

/-- A side goes on to where it has yet to ask for its second row. -/
theorem early_own {x' : Place} (hx' : x'.Early) {work : Work Unit}
    (htasks : (t.step c.operation (.advance tx)).2.tasks = t.tasks.insert tx ⟨d, work⟩)
    (hat : c.At d t tx x) (hwork : x.work c d ≠ none)
    (hsame : Untouched s₀ (t.step c.operation (.advance tx)).2)
    (hat' : c.At d (t.step c.operation (.advance tx)).2 tx x') :
    Early c s₀ (t.step c.operation (.advance tx)).2 := by
  rcases Option.ne_none_iff_exists'.1 hwork with ⟨w, hw⟩
  have htask := hat.task_of_work hw
  -- The labels are the ones from before.
  have hlabels : ∀ {other task},
      (t.step c.operation (.advance tx)).2.tasks.get? other = some task →
      ∃ task₀, t.tasks.get? other = some task₀ ∧ task₀.label = task.label := by
    intro other task hget
    rw [htasks, Table.get?_insert] at hget
    by_cases heq : tx = other
    · rw [if_pos heq, Option.some.injEq] at hget
      exact ⟨_, heq ▸ htask, hget ▸ rfl⟩
    · rw [if_neg heq] at hget
      exact ⟨task, hget, rfl⟩
  have hallow : c.Allows (.advance tx) := trivial
  refine early_of_own h hallow hsame ?_ ?_
  · intro other other' task task' hget hget' hlabel
    rcases hlabels hget with ⟨task₀, hget₀, hlabel₀⟩
    rcases hlabels hget' with ⟨task₀', hget₀', hlabel₀'⟩
    exact h.unique other other' task₀ task₀' hget₀ hget₀'
      (hlabel₀.trans (hlabel.trans hlabel₀'.symm))
  · intro other task hget
    by_cases heq : tx = other
    · subst heq
      rw [htasks, Table.get?_insert, if_pos rfl, Option.some.injEq] at hget
      rw [← hget]
      exact Or.inr ⟨x', hx', hat'⟩
    · rcases hlabels hget with ⟨task₀, hget₀, hlabel₀⟩
      exact Or.inl ⟨task₀, hget₀, hlabel₀, by simpa using heq⟩

end Step

section Early

variable (h : Early c s₀ t)
include h

/-- A side gets its first row. -/
theorem early_opening (hat : c.At d t tx .opening) :
    Early c s₀ (t.step c.operation (.advance tx)).2 := by
  rcases exists_rested c d with ⟨x', hx', hrested⟩
  rcases hx'.record c d with ⟨hrecord, hmark⟩
  rcases exists_opening c d with ⟨next, hwork, hnext⟩
  have hnew : c.row d ∉ OpenTx.fresh.held := by simp [OpenTx.fresh]
  rcases Store.ask_query_free hat.record hnew rfl (Or.inl rfl) (h.calm.there d) (h.free hat) with
    ⟨amount, hask⟩
  have hwaits : (t.store.locks.take tx (c.row d)).waits.get? tx = none := by
    rw [RowLocks.take, Table.get?_erase, if_pos rfl]
  have hlive : (t.store.put tx (OpenTx.fresh.idle.lock (c.row d))
      (t.store.locks.take tx (c.row d))).live.get? tx = x'.record c d := by
    rw [Store.put_live, if_pos rfl, hrecord]
    rfl
  have hgoes : x'.work c d = some (next (.ok amount)) := by
    rw [hnext]
    exact hrested
  rcases at_ask h.calm hat hwork hask hgoes hlive (hmark ▸ hwaits) with ⟨hstore, hat'⟩
  have htasks := congrArg (fun result => result.2.tasks)
    (hat.step_eq hwork (by simp) (by simp))
  refine early_own h hx'.early htasks hat (by simp [Place.work]) (h.untouched.keep ?_ ?_) hat'
  · rw [hstore, Store.put_accounts]
  · rw [hstore, Store.put_conflictsDue]

theorem early_pausing (hat : c.At d t tx .pausing) :
    Early c s₀ (t.step c.operation (.advance tx)).2 := by
  have heq := hat.step_eq (w := .pause c.pause (c.asking d)) rfl (by simp) (by simp)
  have hat' : c.At d (t.step c.operation (.advance tx)).2 tx .asking :=
    at_go h.calm hat rfl (by simp) (by simp) rfl hat.record hat.mark
  refine early_own h .asking (by rw [heq]) hat (by simp [Place.work]) ?_ hat'
  rw [heq]
  exact ⟨h.untouched.accounts, h.untouched.due⟩

/-- A side asks for its second row. -/
theorem asked_of_early (hat : c.At d t tx .asking) :
    c.HasAsked (t.step c.operation (.advance tx)).2 d := by
  have hdone : ∀ outcome, c.asking d ≠ .done outcome := by
    intro outcome hc
    cases hc
  have hcrash : c.asking d ≠ .crash := by
    intro hc
    cases hc
  have htask : t.tasks.get? tx = some ⟨d, c.asking d⟩ := hat.task_of_work rfl
  have hasked := asked_moved h.calm.sound htask hat.record
    (Work.moved (s := t.service) h.calm.sound.plan (c.asking d))
  rw [hat.step_eq rfl hdone hcrash]
  intro other task hget hlabel
  rw [Table.get?_insert] at hget
  by_cases heq : tx = other
  · rw [if_pos heq, Option.some.injEq] at hget
    rw [← hget, ← heq]
    exact hasked
  · rw [if_neg heq] at hget
    exact absurd (h.unique tx other _ task htask hget hlabel.symm) heq

end Early

/-- As long as no side has asked for its second row nothing is returned, and once a side has it is
too late to meet. -/
theorem early_step (h : Early c s₀ t) (hallow : c.Allows turn)
    (hlaunch : ∀ label, turn = .launch label → Absent t label) :
    (Early c s₀ (t.step c.operation turn).2 ∧
        ∀ label, returns label (t.step c.operation turn).1 = []) ∨
      ∃ d, ¬ Absent t d ∧ c.HasAsked (t.step c.operation turn).2 d := by
  cases turn with
  | cut => exact hallow.elim
  | event e => exact Or.inl ⟨early_event h hallow, returns_event e⟩
  | launch label => exact Or.inl ⟨early_launch h (hlaunch label rfl), fun _ => rfl⟩
  | advance tx =>
      cases htask : t.tasks.get? tx with
      | none =>
          rw [show t.step c.operation (.advance tx) = ([], t) by rw [Traffic.step, htask]]
          exact Or.inl ⟨h, fun _ => rfl⟩
      | some task =>
          rcases h.sides tx task htask with ⟨x, hx, hat⟩
          have hthere : ¬ Absent t task.label := fun hc => hc tx task htask rfl
          cases hx with
          | opening =>
              refine Or.inl ⟨early_opening h hat, ?_⟩
              rcases exists_opening c task.label with ⟨next, hwork, _⟩
              rw [hat.step_eq hwork (by simp) (by simp)]
              exact fun _ => rfl
          | pausing =>
              refine Or.inl ⟨early_pausing h hat, ?_⟩
              rw [hat.step_eq (w := .pause c.pause (c.asking task.label)) rfl (by simp) (by simp)]
              exact fun _ => rfl
          | asking => exact Or.inr ⟨task.label, hthere, asked_of_early h hat⟩

theorem absent_after (turns : List (Turn Direction)) (h : t.Sound) (habsent : Absent t d)
    (hlaunch : Turn.launch d ∉ turns) : Absent (t.after c.operation turns) d := by
  induction turns generalizing t with
  | nil => exact habsent
  | cons turn rest ih =>
      rw [List.mem_cons, not_or] at hlaunch
      exact ih (Traffic.sound_step h turn)
        (absent_step h habsent fun hc => hlaunch.1 hc.symm) hlaunch.2

theorem hasAsked_after (turns : List (Turn Direction)) (h : t.Sound) (hasked : c.HasAsked t d)
    (hallow : ∀ turn ∈ turns, c.Allows turn) (hlaunch : Turn.launch d ∉ turns) :
    c.HasAsked (t.after c.operation turns) d := by
  induction turns generalizing t with
  | nil => exact hasked
  | cons turn rest ih =>
      rw [List.mem_cons, not_or] at hlaunch
      exact ih (Traffic.sound_step h turn)
        (hasAsked_step h hasked (hallow turn List.mem_cons_self) fun hc => hlaunch.1 hc.symm)
        (fun turn' hturn' => hallow turn' (List.mem_cons_of_mem _ hturn')) hlaunch.2

theorem mem_launched {turns : List (Turn Direction)} :
    d ∈ turns.filterMap Turn.launched? ↔ Turn.launch d ∈ turns := by
  rw [List.mem_filterMap]
  constructor
  · rintro ⟨turn, hturn, hlaunch⟩
    cases turn with
    | launch label =>
        cases hlaunch
        exact hturn
    | _ => simp [Turn.launched?] at hlaunch
  · exact fun h => ⟨_, h, rfl⟩

/-- Who is launched once is not launched again. -/
theorem not_launched_again {rest : List (Turn Direction)}
    (honce : ((turn :: rest).filterMap Turn.launched?).Nodup) :
    (rest.filterMap Turn.launched?).Nodup ∧
      ∀ label, Turn.launch label ∈ rest → turn ≠ .launch label := by
  cases turn with
  | launch label =>
      simp only [List.filterMap_cons, Turn.launched?, List.nodup_cons] at honce
      refine ⟨honce.2, ?_⟩
      rintro _ hmem ⟨⟩
      exact honce.1 (mem_launched.2 hmem)
  | _ =>
      simp only [List.filterMap_cons, Turn.launched?] at honce
      exact ⟨honce, by simp⟩

theorem early_after (turns : List (Turn Direction)) (h : Early c s₀ t)
    (hallow : ∀ turn ∈ turns, c.Allows turn) (honce : (turns.filterMap Turn.launched?).Nodup)
    (hnew : ∀ label, Turn.launch label ∈ turns → Absent t label) :
    (Early c s₀ (t.after c.operation turns) ∧
        ∀ label, returns label (t.reports c.operation turns) = []) ∨
      ∃ d, c.HasAsked (t.after c.operation turns) d := by
  induction turns generalizing t with
  | nil => exact Or.inl ⟨h, fun _ => rfl⟩
  | cons turn rest ih =>
      have hallow' : ∀ turn' ∈ rest, c.Allows turn' := fun turn' hturn' =>
        hallow turn' (List.mem_cons_of_mem _ hturn')
      rcases not_launched_again honce with ⟨honce', hagain⟩
      rcases early_step h (hallow turn List.mem_cons_self)
        (fun label hc => hnew label (hc ▸ List.mem_cons_self)) with
        ⟨hearly, htold⟩ | ⟨d, hthere, hasked⟩
      · have hnew' : ∀ label, Turn.launch label ∈ rest →
            Absent (t.step c.operation turn).2 label := fun label hmem =>
          absent_step h.calm.sound (hnew label (List.mem_cons_of_mem _ hmem))
            (hagain label hmem)
        rcases ih hearly hallow' honce' hnew' with ⟨hlast, hrest⟩ | hasked
        · refine Or.inl ⟨hlast, fun label => ?_⟩
          rw [Traffic.reports, returns_append, htold, hrest]
          rfl
        · exact Or.inr hasked
      · -- The side is there, so it is not launched any more.
        refine Or.inr ⟨d, hasAsked_after rest (Traffic.sound_step h.calm.sound turn) hasked
          hallow' fun hc => hthere (hnew d (List.mem_cons_of_mem _ hc))⟩

theorem past_ne {work : Work Unit} (h : c.Past d work) :
    work ≠ c.asking d ∧ work ≠ .pause c.pause (c.asking d) := by
  cases h with
  | writing => exact ⟨by rintro ⟨⟩, by rintro ⟨⟩⟩
  | writingLast => exact ⟨by rintro ⟨⟩, by rintro ⟨⟩⟩
  | concluding outcome =>
      cases outcome with
      | ok => exact ⟨by rintro ⟨⟩, by rintro ⟨⟩⟩
      | error => exact ⟨by rintro ⟨⟩, by rintro ⟨⟩⟩
  | done => exact ⟨by rintro ⟨⟩, by rintro ⟨⟩⟩

/-- Once a side has asked it is too late to meet. -/
theorem not_hasFirst_of_hasAsked (h : c.HasAsked t d) : ¬ c.HasFirst t d := by
  rintro ⟨tx, work, htask, hidle, hwork, _⟩
  rcases h tx _ htask rfl with hpast | ⟨_, hblocked⟩
  · rcases past_ne hpast with ⟨hasking, hpausing⟩
    rcases hwork with hwork | hwork
    · exact hpausing hwork
    · exact hasking hwork
  · rw [hidle] at hblocked
    simp at hblocked

/-- A side that has its first row and has not asked for the second one stands there. -/
theorem holding_of_hasFirst (h : Early c s₀ t) (hfirst : c.HasFirst t d) :
    ∃ (tx : TxId) (x : Place), x.Holding ∧ c.At d t tx x := by
  rcases hfirst with ⟨tx, work, htask, _, _, hheld⟩
  rcases h.sides tx _ htask with ⟨x, hx, hat⟩
  cases hx with
  | pausing => exact ⟨tx, _, .pausing, hat⟩
  | asking => exact ⟨tx, _, .asking, hat⟩
  | opening =>
      -- It has no rows yet.
      rw [h.free hat] at hheld
      simp at hheld

/-- Two sides that both have their first rows are both on their way. -/
theorem standing_of_hasFirst (h : Early c s₀ t) (hmet : ∀ d, c.HasFirst t d) :
    ∃ (p q : TxId) (x y : Place), x.Holding ∧ y.Holding ∧ c.Standing t .forward p q x y := by
  rcases holding_of_hasFirst h (hmet .forward) with ⟨p, x, hx, hat⟩
  rcases holding_of_hasFirst h (hmet .backward) with ⟨q, y, hy, hat'⟩
  have hwork : ∀ {z : Place} {d}, z.Holding → ∃ w, z.work c d = some w := by
    intro z d hz
    cases hz with
    | pausing => exact ⟨_, rfl⟩
    | asking => exact ⟨_, rfl⟩
  rcases hwork hx with ⟨w, hw⟩
  rcases hwork hy with ⟨w', hw'⟩
  have htask := hat.task_of_work hw
  have htask' := hat'.task_of_work hw'
  refine ⟨p, q, x, y, hx, hy, h.calm, ?_, ?_, hat, hat'⟩
  · rintro rfl
    rw [htask, Option.some.injEq, Task.mk.injEq] at htask'
    simp at htask'
  · intro tx task hget
    cases hlabel : task.label with
    | forward => exact Or.inl (h.unique tx p task _ hget htask hlabel)
    | backward => exact Or.inr (h.unique tx q task _ hget htask' hlabel)

theorem Place.Holding.told (h : x.Holding) (tx : TxId) : x.told tx = [] := by
  cases h with
  | pausing => rfl
  | asking => rfl

/-- Two sides that both have their first rows face each other. -/
theorem stage_of_hasFirst (h : Early c s₀ t) (hmet : ∀ d, c.HasFirst t d) :
    Stage c s₀ t (fun _ => []) (fun _ _ _ => False) := by
  rcases standing_of_hasFirst h hmet with ⟨p, q, x, y, hx, hy, hstanding⟩
  exact .stands hstanding (.facing h.untouched hx hy) (hx.told p).symm (hy.told q).symm

/-- The turns of two sides that meet: others keep away, neither side is launched twice, and at some
time both have their first rows and have yet to ask for their second ones. -/
structure Faces (c : Standoff) (s : Store) (turns : List (Turn Direction)) : Prop where
  allowed : ∀ turn ∈ turns, c.Allows turn
  once : (turns.filterMap Turn.launched?).Nodup
  met : ∃ first rest, turns = first ++ rest ∧
    ∀ d, c.HasFirst ((Traffic.ofStore s).after c.operation first) d

/-- A store with the two accounts, and with nobody who uses them. -/
structure Awaits (c : Standoff) (s : Store) : Prop where
  consistent : s.Consistent
  there : ∀ d, (s.accounts.get? (c.row d)).isSome = true
  spared : ∀ tx o, s.live.get? tx = some o → ∀ d, o.Spares (c.row d)

/-- A row that is spared by everybody is free. -/
theorem Awaits.free {s : Store} (h : c.Awaits s) (d : Direction) :
    s.locks.holders.get? (c.row d) = none := by
  rw [Option.eq_none_iff_forall_ne_some]
  intro tx hheld
  rcases (h.consistent.holder_iff _ tx).1 hheld with ⟨o, hlive, hmem⟩
  exact (h.spared tx o hlive d).held hmem

theorem early_ofStore {s : Store} (h : c.Awaits s) : Early c s (.ofStore s) where
  calm := ⟨Traffic.sound_ofStore h.consistent, h.there, fun tx o _ => h.spared tx o⟩
  untouched := ⟨rfl, rfl⟩
  unique tx tx' task task' htask := by simp [Traffic.ofStore] at htask
  sides tx task htask := by simp [Traffic.ofStore] at htask

theorem absent_ofStore (s : Store) (d : Direction) : Absent (Traffic.ofStore s) d := by
  intro tx task htask
  simp [Traffic.ofStore] at htask

/-- When the sides meet, neither has asked for its second row, and nothing has been returned. -/
theorem early_of_met {s : Store} {first : List (Turn Direction)} (h : c.Awaits s)
    (hallow : ∀ turn ∈ first, c.Allows turn) (honce : (first.filterMap Turn.launched?).Nodup)
    (hmet : ∀ d, c.HasFirst ((Traffic.ofStore s).after c.operation first) d) :
    Early c s ((Traffic.ofStore s).after c.operation first) ∧
      ∀ label, returns label ((Traffic.ofStore s).reports c.operation first) = [] := by
  rcases early_after first (early_ofStore h) hallow honce (fun label _ => absent_ofStore s label)
    with hearly | ⟨d, hasked⟩
  · exact hearly
  · exact absurd (hmet d) (not_hasFirst_of_hasAsked hasked)

/-- After turns in which the sides meet they stand to each other as those who have met do. -/
theorem stage_of_faces {s : Store} {turns : List (Turn Direction)} (h : c.Awaits s)
    (hfaces : c.Faces s turns) :
    Stage c s ((Traffic.ofStore s).after c.operation turns)
      (fun e => returns e ((Traffic.ofStore s).reports c.operation turns))
      (fun e tx outcome => ∃ before rest, turns = before ++ rest ∧
        c.Concludes e ((Traffic.ofStore s).after c.operation before) tx outcome) := by
  rcases hfaces.met with ⟨first, rest, rfl, hmet⟩
  have honce := hfaces.once
  rw [List.filterMap_append, List.nodup_append] at honce
  rcases early_of_met h (fun turn hturn => hfaces.allowed turn (List.mem_append_left _ hturn))
    honce.1 hmet with ⟨hearly, htold⟩
  -- Both have been launched by now.
  have hlaunch : ∀ label, Turn.launch label ∉ rest := by
    intro label hmem
    have hnot : Turn.launch label ∉ first := fun hc =>
      honce.2.2 label (mem_launched.2 hc) label (mem_launched.2 hmem) rfl
    rcases hmet label with ⟨tx, work, htask, _⟩
    exact absent_after first (Traffic.sound_ofStore h.consistent) (absent_ofStore s label) hnot tx _
      htask rfl
  have hlast := stage_after rest (stage_of_hasFirst hearly hmet)
    (fun turn hturn => hfaces.allowed turn (List.mem_append_right _ hturn)) hlaunch
  rw [Traffic.after_append, Traffic.reports_append]
  have htold' : (fun e => returns e ((Traffic.ofStore s).reports c.operation first ++
      ((Traffic.ofStore s).after c.operation first).reports c.operation rest)) = fun e =>
      [] ++ returns e (((Traffic.ofStore s).after c.operation first).reports c.operation rest) := by
    funext e
    rw [returns_append, htold]
  rw [htold']
  refine hlast.mono ?_
  rintro e tx outcome (hnone | ⟨before, rest', rfl, hcommits⟩)
  · exact hnone.elim
  · refine ⟨first ++ before, rest', (List.append_assoc ..).symm, ?_⟩
    rw [Traffic.after_append]
    exact hcommits

end Standoff

end RowLedger
