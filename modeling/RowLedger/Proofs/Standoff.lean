import RowLedger.Crossing
import RowLedger.Proofs.Aftermath
import RowLedger.Proofs.Asking

/-!
# Two transfers that cross

Two sides that each lock one row first and the row of the other one second.
How far a side has come says all there is to know about it: what it has left to
do, what is on record about its transaction, and for which row it is marked as
waiting. Others may be around as long as they keep away from the two rows; they
do not change any of this, except that a call that waits is woken when somebody
ends.

From each place there is one way on for a side, and where it leads depends on
the other side only at the second row: that row is free when the other side has
ended, taken while it holds the row without waiting, and the end of a cycle when
it waits.

## Main definitions

* `OpenTx.Spares`: A transaction that keeps away from a row.
* `Standoff`: Two transfers that cross.
* `Standoff.Place`, `Standoff.At`: How far a side has come.
* `Standoff.Allows`, `Standoff.Calm`: Others keep away.
* `Standoff.Standing`: Where both sides are.
* `Standoff.Advanced`: One side has gone on.

## Theorems

* `calm_step`: Others go on keeping away.
* `at_step`: A side stands still while it is not its turn.
* `move_taken`, `move_again`, `move_cycle`, `move_free`: What a side meets at its
  second row.
* `move_writing`, `move_writingLast`: It writes.
* `move_committing`, `move_retreating`, `standing_end`: It ends, and wakes the
  other side.
-/

namespace RowLedger

/-- A transaction neither holds the row nor waits for it. -/
structure OpenTx.Spares (t : OpenTx) (row : AccountId) : Prop where
  held : row ∉ t.held
  blocked : ∀ w, t.blocked = some w → w.request.row ≠ row

theorem OpenTx.Spares.wake {t : OpenTx} {row : AccountId} (h : t.Spares row) :
    t.wake.Spares row := by
  refine ⟨h.held, ?_⟩
  intro w hw
  rcases Option.map_eq_some_iff.1 hw with ⟨w₀, hw₀, rfl⟩
  exact h.blocked w₀ hw₀

/-- The direction of the other side. -/
def Direction.other : Direction → Direction
  | .forward => .backward
  | .backward => .forward

namespace Direction

theorem other_other (d : Direction) : d.other.other = d := by
  cases d <;> rfl

theorem ne_other (d : Direction) : d ≠ d.other := by
  cases d <;> decide

theorem eq_or_other (e d : Direction) : e = d ∨ e = d.other := by
  cases e <;> cases d <;> simp [other]

end Direction

/-- Two transfers that cross between two rows. -/
structure Standoff where
  /-- The row that a side locks first. It is the second one of the other side. -/
  row : Direction → AccountId
  amount : Direction → Decimal
  /-- How long each side pauses between its rows. -/
  pause : Nat
  distinct : row .forward ≠ row .backward

namespace Standoff

variable (c : Standoff) (d : Direction)

/-- One of the two transfers. -/
def operation : Operation :=
  .inTransaction (Work.crossing (c.row d) (c.row d.other) (c.amount d) c.pause)

/-- What a side has left to do when it has its first row and has paused. -/
def asking : Work Unit :=
  .concluded do
    let _ ← Work.query (c.row d.other)
    Work.update (c.row d) (c.amount d).neg
    Work.update (c.row d.other) (c.amount d)

/-- What it has left to do when it has both rows. -/
def writing : Work Unit :=
  .concluded do
    Work.update (c.row d) (c.amount d).neg
    Work.update (c.row d.other) (c.amount d)

/-- What it has left to do when one delta is put down. -/
def writingLast : Work Unit := .concluded (Work.update (c.row d.other) (c.amount d))

/-- What a side puts down. -/
def deltas : Table AccountId Decimal :=
  (Table.empty.insert (c.row d) (c.amount d).neg).insert (c.row d.other) (c.amount d)

/-- How far a side has come. -/
inductive Place where
  | opening
  | pausing
  | asking
  | waiting (woken : Bool)
  | writing
  | writingLast
  | committing
  | retreating (e : Failure)
  | leaving (outcome : Except Failure Unit)
  | gone (outcome : Except Failure Unit)

namespace Place

/-- What a side has left to do. -/
def work : Place → Option (Work Unit)
  | .opening => some (Work.crossing (c.row d) (c.row d.other) (c.amount d) c.pause)
  | .pausing => some (.pause c.pause (c.asking d))
  | .asking | .waiting _ => some (c.asking d)
  | .writing => some (c.writing d)
  | .writingLast => some (c.writingLast d)
  | .committing => some (.conclude (.ok ()))
  | .retreating e => some (.conclude (.error e))
  | .leaving outcome => some (.done outcome)
  | .gone _ => none

/-- The record of its transaction. -/
def record : Place → Option OpenTx
  | .opening => some .fresh
  | .pausing | .asking | .retreating _ => some ⟨[c.row d], .empty, none⟩
  | .waiting woken => some ⟨[c.row d], .empty, some ⟨.query (c.row d.other), woken⟩⟩
  | .writing => some ⟨[c.row d, c.row d.other], .empty, none⟩
  | .writingLast =>
    some ⟨[c.row d, c.row d.other], Table.empty.insert (c.row d) (c.amount d).neg, none⟩
  | .committing => some ⟨[c.row d, c.row d.other], c.deltas d, none⟩
  | .leaving _ | .gone _ => none

/-- The row that it is marked as waiting for. -/
def mark : Place → Option AccountId
  | .waiting _ => some (c.row d.other)
  | _ => none

/-- Another transaction has ended. -/
def wake : Place → Place
  | .waiting _ => .waiting true
  | x => x

theorem work_wake (x : Place) : x.wake.work c d = x.work c d := by
  cases x <;> rfl

theorem record_wake (x : Place) : x.wake.record c d = (x.record c d).map OpenTx.wake := by
  cases x <;> rfl

theorem mark_wake (x : Place) : x.wake.mark c d = x.mark c d := by
  cases x <;> rfl

end Place

/-- A side has come this far in its transaction. -/
structure At (t : Traffic Direction) (tx : TxId) (x : Place) : Prop where
  begun : tx ≤ t.store.begun
  task : t.tasks.get? tx = (x.work c d).map (Task.mk d)
  record : t.store.live.get? tx = x.record c d
  mark : t.store.locks.waits.get? tx = x.mark c d

/-- Others keep away from the two rows, and commit nothing. -/
def Aside : Event → Prop
  | .call _ (.request r) => ∀ d, r.row ≠ c.row d
  | .call _ .commit | .insert .. | .inject _ => False
  | .start | .call _ .rollback | .poll _ | .abandon _ | .drop _ => True

/-- The turns of the two sides, and of others that keep away. -/
def Allows : Turn Direction → Prop
  | .event e => c.Aside e
  | .launch _ | .advance _ => True
  | .cut _ => False

/-- What holds as long as others keep away from the two rows. -/
structure Calm (t : Traffic Direction) : Prop where
  sound : t.Sound
  there : ∀ d, (t.store.accounts.get? (c.row d)).isSome = true
  spared : ∀ tx o, t.tasks.get? tx = none → t.store.live.get? tx = some o →
    ∀ d, o.Spares (c.row d)

end Standoff

namespace Standoff

variable {c : Standoff} {d : Direction} {t : Traffic Direction} {turn : Turn Direction}
  {tx p q : TxId} {x x' y : Place}

/-- A look at another row leaves the two rows alone. -/
theorem spares_examined {s : Store} {tx : TxId} {o o' : OpenTx} {r : Request}
    {result : Reply × Store} {row : AccountId} (hrow : r.row ≠ row) (h : o.Spares row)
    (hlook : Store.Examined s tx o r result) (ho : result.2.live.get? tx = some o') :
    o'.Spares row := by
  cases hlook with
  | absent =>
      rw [Store.put_live, if_pos rfl, Option.some.injEq] at ho
      exact ho ▸ ⟨h.held, by simp⟩
  | @granted account =>
      rw [Store.put_live, if_pos rfl, Option.some.injEq] at ho
      rw [← ho]
      refine ⟨?_, ?_⟩
      · rw [OpenTx.serve_held, OpenTx.lock_held, List.mem_append, List.mem_singleton, not_or]
        exact ⟨h.held, fun hc => hrow hc.symm⟩
      · simp [OpenTx.serve_blocked]
  | cycle =>
      rw [Store.put_live, if_pos rfl, Option.some.injEq] at ho
      exact ho ▸ ⟨h.held, by simp⟩
  | waiting =>
      rw [Store.put_live, if_pos rfl, Option.some.injEq] at ho
      rw [← ho]
      refine ⟨h.held, ?_⟩
      intro w hw
      rw [← Option.some.inj hw]
      exact hrow

/-- Others that keep away from the two rows go on doing so. -/
theorem spares_step {s : Store} {e : Event} {tx : TxId} {o : OpenTx} (hcons : s.Consistent)
    (haside : c.Aside e) (h : ∀ o, s.live.get? tx = some o → ∀ d, o.Spares (c.row d))
    (ho : (s.step e).2.live.get? tx = some o) (d : Direction) : o.Spares (c.row d) := by
  by_cases hmine : e.tx? = some tx ∨ e = .start
  · have hstep := Store.stepped s e
    generalize s.step e = result at hstep ho
    have hown : ∀ {other : TxId}, e.tx? = some other → e = .start ∨ other = tx := by
      intro other hother
      refine hmine.symm.imp_right fun hc => ?_
      rw [hother, Option.some.injEq] at hc
      exact hc
    cases hstep with
    | nothing => exact h o ho d
    | closed => exact h o ho d
    | started =>
        rcases Store.live_start_cases ho with ⟨_, rfl⟩ | hold
        · exact ⟨by simp [OpenTx.fresh], by simp [OpenTx.fresh]⟩
        · exact h o hold d
    | @served other t r hlive hidle _ =>
        rcases hown rfl with hc | rfl
        · simp at hc
        rw [Store.put_live, if_pos rfl, Option.some.injEq] at ho
        rw [← ho]
        refine ⟨?_, ?_⟩
        · rw [OpenTx.serve_held]
          exact (h t hlive d).held
        · rw [OpenTx.serve_blocked, hidle]
          simp
    | @asked other t r result hlive _ _ hlook =>
        rcases hown rfl with hc | rfl
        · simp at hc
        exact spares_examined (haside d) (h t hlive d) hlook ho
    | @polled other t r result hlive hwoken hlook =>
        rcases hown rfl with hc | rfl
        · simp at hc
        exact spares_examined ((h t hlive d).blocked _ hwoken) (h t hlive d) hlook ho
    | @abandoned other t hlive =>
        rcases hown rfl with hc | rfl
        · simp at hc
        rw [Store.put_live, if_pos rfl, Option.some.injEq] at ho
        exact ho ▸ ⟨(h t hlive d).held, by simp⟩
    | dropped hlive =>
        rcases Store.live_release_cases hlive ho with ⟨_, o₀, ho₀, rfl⟩
        exact (h o₀ ho₀ d).wake
    | rolledBack hlive =>
        rcases Store.live_release_cases hlive ho with ⟨_, o₀, ho₀, rfl⟩
        exact (h o₀ ho₀ d).wake
    | committed => exact haside.elim
    | inserted => exact haside.elim
    | injected => exact haside.elim
  · rw [not_or] at hmine
    rcases Store.live_of_step_other hcons hmine.1 hmine.2 ho with ⟨o₀, ho₀, rfl | rfl⟩
    · exact h _ ho₀ d
    · exact (h o₀ ho₀ d).wake

/-- No account is put in. -/
theorem ne_insert_behind (hallow : c.Allows turn) {e : Event} (hbehind : t.Behind turn e)
    (id : AccountId) (balance : Decimal) : e ≠ .insert id balance := by
  rintro rfl
  cases hbehind with
  | outside => exact hallow
  | going _ htx => simp [Event.tx?] at htx

/-- Whoever is no side keeps away from the two rows. -/
theorem spared_step (h : c.Calm t) (hallow : c.Allows turn) {tx : TxId} {o : OpenTx}
    (htasks : (t.step c.operation turn).2.tasks.get? tx = none)
    (ho : (t.step c.operation turn).2.store.live.get? tx = some o) (d : Direction) :
    o.Spares (c.row d) := by
  have hturned := Traffic.turned c.operation h.sound.plan turn
  generalize t.step c.operation turn = result at hturned htasks ho
  have hclosed : ∀ {other}, (t.close other).tasks.get? tx = none →
      (t.close other).store.live.get? tx = some o → o.Spares (c.row d) := by
    intro other hnone hlive
    have hlive' : (t.store.release other).live.get? tx = some o := hlive
    rw [Traffic.close, Table.get?_erase] at hnone
    by_cases heq : other = tx
    · rw [heq, Store.ended_release] at hlive'
      simp at hlive'
    · rw [if_neg heq] at hnone
      cases hother : t.store.live.get? other with
      | none =>
          rw [Store.release_of_ended hother] at hlive'
          exact h.spared tx o hnone hlive' d
      | some _ =>
          rcases Store.live_release_cases hother hlive' with ⟨_, o₀, ho₀, rfl⟩
          exact (h.spared tx o₀ hnone ho₀ d).wake
  cases hturned with
  | nothing => exact h.spared tx o htasks ho d
  | settled => exact h.spared tx o htasks ho d
  | happened _ hstore hsame =>
      rw [hsame] at htasks
      rw [hstore] at ho
      exact spares_step h.sound.consistent hallow (fun o ho => h.spared tx o htasks ho) ho d
  | launched _ hstore hinsert =>
      rw [hinsert, Table.get?_insert] at htasks
      rw [hstore] at ho
      rcases Store.live_start_cases ho with ⟨heq, _⟩ | hold
      · rw [if_pos (show t.store.start.1 = tx from heq)] at htasks
        simp at htasks
      · by_cases heq : t.store.start.1 = tx
        · simp [heq] at htasks
        · rw [if_neg heq] at htasks
          exact h.spared tx o htasks hold d
  | @moved other task work t' htask hmoved hinsert =>
      rw [hinsert, Table.get?_insert] at htasks
      by_cases heq : other = tx
      · simp [heq] at htasks
      rw [if_neg heq] at htasks
      rcases Work.moved_event (fun w => h.sound.standing other task w htask)
        (h.sound.begun other task htask) hmoved with hsame | ⟨e, hstep, htx, _⟩
      · exact h.spared tx o htasks (hsame ▸ ho) d
      · have hne : e.tx? ≠ some tx := by
          rw [htx]
          simpa using heq
        have hstart : e ≠ .start := by
          rintro rfl
          simp [Event.tx?] at htx
        rw [hstep] at ho
        rcases Store.live_of_step_other h.sound.consistent hne hstart ho with
          ⟨o₀, ho₀, rfl | rfl⟩
        · exact h.spared tx _ htasks ho₀ d
        · exact (h.spared tx o₀ htasks ho₀ d).wake
  | returned => exact hclosed htasks ho
  | crashed => exact hclosed htasks ho
  | cut => exact hallow.elim

theorem calm_step (h : c.Calm t) (hallow : c.Allows turn) :
    c.Calm (t.step c.operation turn).2 where
  sound := Traffic.sound_step h.sound turn
  there d := by
    rcases Traffic.turned_store h.sound (Traffic.turned c.operation h.sound.plan turn) with
      hsame | ⟨e, hstep, hbehind⟩
    · rw [hsame]
      exact h.there d
    · rw [hstep, Store.isSome_accounts_step (ne_insert_behind hallow hbehind)]
      exact h.there d
  spared tx o htasks ho := spared_step h hallow htasks ho

theorem row_ne (c : Standoff) (d : Direction) : c.row d ≠ c.row d.other := by
  cases d with
  | forward => exact c.distinct
  | backward => exact c.distinct.symm

theorem Place.of_work_none (h : x.work c d = none) :
    x.record c d = none ∧ x.mark c d = none := by
  cases x with
  | gone => exact ⟨rfl, rfl⟩
  | _ => simp [Place.work] at h

/-- A side stands where it stood after the turn of somebody else, or has been woken. -/
theorem at_step (h : c.Calm t) (hat : c.At d t tx x) (hallow : c.Allows turn)
    (hturn : turn ≠ .advance tx) :
    ∃ x', (x' = x ∨ x' = x.wake) ∧ c.At d (t.step c.operation turn).2 tx x' := by
  have hcalm := calm_step h hallow
  have hturned := Traffic.turned c.operation h.sound.plan turn
  generalize t.step c.operation turn = result at hcalm hturned
  have hbegun := Nat.le_trans hat.begun (Traffic.begun_turned_le h.sound hturned)
  have hcut : turn ≠ .cut tx := by
    rintro rfl
    exact hallow
  have htask := Traffic.task_turned_other hturned hat.begun hturn hcut
  rcases Traffic.turned_store h.sound hturned with hsame | ⟨e, hstep, hbehind⟩
  · exact ⟨x, Or.inl rfl, hbegun, htask.trans hat.task, hsame ▸ hat.record,
      hsame ▸ hat.mark⟩
  · cases hwork : x.work c d with
    | none =>
        -- What has ended is not opened again, and nobody waits who is not open.
        rcases Place.of_work_none hwork with ⟨hrecord, hmark⟩
        have hended : result.2.store.live.get? tx = none := by
          rw [hstep]
          exact Store.ended_step (hat.record.trans hrecord) hat.begun e
        have hwaits := Store.waits_of_ended hcalm.sound.consistent hended
        exact ⟨x, Or.inl rfl, hbegun, htask.trans hat.task, hended.trans hrecord.symm,
          hwaits.trans hmark.symm⟩
    | some w =>
        have hthere : t.tasks.get? tx = some ⟨d, w⟩ := by rw [hat.task, hwork, Option.map_some]
        have hne := hbehind.tx?_ne hthere hturn hcut
        have hmark : result.2.store.locks.waits.get? tx = x.mark c d := by
          rw [hstep, Store.waits_step_other hne]
          exact hat.mark
        rcases Store.live_step_other hat.begun hne with hlive | hlive
        · refine ⟨x, Or.inl rfl, hbegun, htask.trans hat.task, ?_, hmark⟩
          rw [hstep, hlive]
          exact hat.record
        · refine ⟨x.wake, Or.inr rfl, hbegun, ?_, ?_, ?_⟩
          · rw [htask, Place.work_wake]
            exact hat.task
          · rw [hstep, hlive, Place.record_wake, hat.record]
          · rw [hmark, Place.mark_wake]

section Own

variable (h : c.Calm t) (hat : c.At d t tx x)
include hat

theorem At.task_of_work {w : Work Unit} (hwork : x.work c d = some w) :
    t.tasks.get? tx = some ⟨d, w⟩ := by
  rw [hat.task, hwork, Option.map_some]

theorem At.step_eq {w : Work Unit} (hwork : x.work c d = some w)
    (hdone : ∀ outcome, w ≠ .done outcome) (hcrash : w ≠ .crash) :
    t.step c.operation (.advance tx) = ([], ⟨(w.step tx t.service).2,
      t.tasks.insert tx ⟨d, (w.step tx t.service).1⟩⟩) := by
  rw [Traffic.step, hat.task_of_work hwork]
  exact Traffic.advance_eq hdone hcrash

include h

/-- What the task of a side comes to is where the side has come to. -/
theorem at_go {w : Work Unit} (hwork : x.work c d = some w)
    (hdone : ∀ outcome, w ≠ .done outcome) (hcrash : w ≠ .crash)
    (hwork' : x'.work c d = some (w.step tx t.service).1)
    (hrecord : (w.step tx t.service).2.store.live.get? tx = x'.record c d)
    (hmark : (w.step tx t.service).2.store.locks.waits.get? tx = x'.mark c d) :
    c.At d (t.step c.operation (.advance tx)).2 tx x' := by
  have hbegun := Traffic.begun_turned_le h.sound
    (Traffic.turned c.operation h.sound.plan (.advance tx))
  rw [hat.step_eq hwork hdone hcrash] at hbegun ⊢
  refine ⟨Nat.le_trans hat.begun hbegun, ?_, hrecord, hmark⟩
  rw [Table.get?_insert, if_pos rfl, hwork', Option.map_some]

/-- A side makes a request. -/
theorem at_ask {r : Request} {next : Except StoreFault Decimal → Work Unit}
    {reply : Reply} {s : Store} (hwork : x.work c d = some (.request r next))
    (hask : t.store.ask tx r = (reply, s))
    (hwork' : x'.work c d = some ((reply.toAnswer.map next).getD (.request r next)))
    (hrecord : s.live.get? tx = x'.record c d) (hmark : s.locks.waits.get? tx = x'.mark c d) :
    (t.step c.operation (.advance tx)).2.store = s ∧
      c.At d (t.step c.operation (.advance tx)).2 tx x' := by
  have hstep : ((Work.request r next).step tx t.service).1 =
      (reply.toAnswer.map next).getD (.request r next) ∧
      ((Work.request r next).step tx t.service).2.store = s := Work.step_request hask
  rcases hstep with ⟨hgoes, hstore⟩
  refine ⟨?_, at_go h hat hwork (by simp) (by simp) (hgoes ▸ hwork') (hstore ▸ hrecord)
    (hstore ▸ hmark)⟩
  rw [hat.step_eq hwork (by simp) (by simp)]
  exact hstore

end Own

/-- Both sides are on their way. -/
structure Standing (c : Standoff) (t : Traffic Direction) (d : Direction) (p q : TxId)
    (x y : Place) : Prop where
  calm : c.Calm t
  apart : p ≠ q
  /-- Nobody else has a task. -/
  only : ∀ tx task, t.tasks.get? tx = some task → tx = p ∨ tx = q
  mine : c.At d t p x
  theirs : c.At d.other t q y

theorem Standing.swap (h : c.Standing t d p q x y) : c.Standing t d.other q p y x where
  calm := h.calm
  apart := h.apart.symm
  only tx task htask := (h.only tx task htask).symm
  mine := h.theirs
  theirs := by
    rw [Direction.other_other]
    exact h.mine

/-- A side has gone on: it has come to a place, and the other one stands where it stood or has been
woken. -/
structure Advanced (c : Standoff) (t : Traffic Direction) (d : Direction) (p q : TxId)
    (x y : Place) : Prop where
  told : (t.step c.operation (.advance p)).1 = []
  accounts : (t.step c.operation (.advance p)).2.store.accounts = t.store.accounts
  due : (t.step c.operation (.advance p)).2.store.conflictsDue = t.store.conflictsDue
  standing : ∃ y', (y' = y ∨ y' = y.wake) ∧
    c.Standing (t.step c.operation (.advance p)).2 d p q x y'

section Going

variable (h : c.Standing t d p q x y)
include h

/-- The other side does not mind. -/
theorem standing_go {w : Work Unit} (hwork : x.work c d = some w)
    (hdone : ∀ outcome, w ≠ .done outcome) (hcrash : w ≠ .crash)
    (hat : c.At d (t.step c.operation (.advance p)).2 p x') :
    ∃ y', (y' = y ∨ y' = y.wake) ∧
      c.Standing (t.step c.operation (.advance p)).2 d p q x' y' := by
  have hallow : c.Allows (.advance p) := trivial
  have hcalm := calm_step h.calm hallow
  rcases at_step h.calm h.theirs hallow (by simpa using h.apart) with ⟨y', hy', htheirs⟩
  refine ⟨y', hy', hcalm, h.apart, ?_, hat, htheirs⟩
  intro tx task htask
  rw [h.mine.step_eq hwork hdone hcrash, Table.get?_insert] at htask
  by_cases heq : p = tx
  · exact Or.inl heq.symm
  · rw [if_neg heq] at htask
    exact h.only tx task htask

theorem advanced_of_ask {r : Request} {next : Except StoreFault Decimal → Work Unit}
    {reply : Reply} {s : Store} (hwork : x.work c d = some (.request r next))
    (hask : t.store.ask p r = (reply, s)) (haccounts : s.accounts = t.store.accounts)
    (hdue : s.conflictsDue = t.store.conflictsDue)
    (hwork' : x'.work c d = some ((reply.toAnswer.map next).getD (.request r next)))
    (hrecord : s.live.get? p = x'.record c d) (hmark : s.locks.waits.get? p = x'.mark c d) :
    c.Advanced t d p q x' y := by
  rcases at_ask h.calm h.mine hwork hask hwork' hrecord hmark with ⟨hstore, hat⟩
  exact ⟨by rw [h.mine.step_eq hwork (by simp) (by simp)], hstore ▸ haccounts, hstore ▸ hdue,
    standing_go h hwork (by simp) (by simp) hat⟩

/-- A request that changes the record. -/
theorem advanced_of_put {r : Request} {next : Except StoreFault Decimal → Work Unit}
    {reply : Reply} {o : OpenTx} {locks : RowLocks} (hwork : x.work c d = some (.request r next))
    (hask : t.store.ask p r = (reply, t.store.put p o locks))
    (hwork' : x'.work c d = some ((reply.toAnswer.map next).getD (.request r next)))
    (hrecord : x'.record c d = some o) (hmark : locks.waits.get? p = x'.mark c d) :
    c.Advanced t d p q x' y :=
  advanced_of_ask h hwork hask (Store.put_accounts ..) (Store.put_conflictsDue ..) hwork'
    (by rw [Store.put_live, if_pos rfl, hrecord]) hmark

end Going

/-- A side has its first row and has yet to ask for the second one. -/
inductive Place.Holding : Place → Prop where
  | pausing : Holding .pausing
  | asking : Holding .asking

/-- A side has ended its transaction. -/
inductive Place.Over (outcome : Except Failure Unit) : Place → Prop where
  | leaving : Over outcome (.leaving outcome)
  | gone : Over outcome (.gone outcome)

/-- A side looks at its second row when it goes on. -/
inductive Place.Ready : Place → Prop where
  | asking : Ready .asking
  | woken : Ready (.waiting true)

section Moves

theorem holder_of_record (h : c.Calm t) {tx : TxId} {row : AccountId} {o : OpenTx}
    (hat : c.At d t tx x) (hrecord : x.record c d = some o) (hmem : row ∈ o.held) :
    t.store.locks.holders.get? row = some tx :=
  (h.sound.consistent.holder_iff row tx).2 ⟨o, hat.record.trans hrecord, hmem⟩

variable (h : c.Standing t d p q x y)
include h

/-- A row that neither side has is nobody's. -/
theorem Standing.free {e : Direction} (hmine : ∀ o, x.record c d = some o → c.row e ∉ o.held)
    (htheirs : ∀ o, y.record c d.other = some o → c.row e ∉ o.held) :
    t.store.locks.holders.get? (c.row e) = none := by
  rw [Option.eq_none_iff_forall_ne_some]
  intro tx hheld
  rcases (h.calm.sound.consistent.holder_iff _ tx).1 hheld with ⟨o, hlive, hmem⟩
  cases htask : t.tasks.get? tx with
  | none => exact (h.calm.spared tx o htask hlive e).held hmem
  | some task =>
      rcases h.only tx task htask with rfl | rfl
      · exact hmine o (h.mine.record.symm.trans hlive) hmem
      · exact htheirs o (h.theirs.record.symm.trans hlive) hmem

theorem move_pausing (hx : x = .pausing) : c.Advanced t d p q .asking y := by
  subst hx
  have heq := h.mine.step_eq (w := .pause c.pause (c.asking d)) rfl (by simp) (by simp)
  have hat : c.At d (t.step c.operation (.advance p)).2 p .asking :=
    at_go h.calm h.mine rfl (by simp) (by simp) rfl h.mine.record h.mine.mark
  have hstore : (t.step c.operation (.advance p)).2.store = t.store := by
    rw [heq]
    rfl
  exact ⟨by rw [heq], by rw [hstore], by rw [hstore], standing_go h rfl (by simp) (by simp) hat⟩

/-- A side that is ready to look at its second row, as the store knows it. -/
theorem Standing.ready (hready : x.Ready) :
    ∃ o, t.store.live.get? p = some o ∧ c.row d.other ∉ o.held ∧
      o.pending.get? (c.row d.other) = none ∧
      (o.blocked = none ∨ o.blocked = some ⟨.query (c.row d.other), true⟩) ∧
      o.idle = ⟨[c.row d], .empty, none⟩ ∧ x.work c d = some (c.asking d) := by
  have hnew : c.row d.other ∉ [c.row d] := by simpa using (c.row_ne d).symm
  cases hready with
  | asking => exact ⟨_, h.mine.record, hnew, rfl, Or.inl rfl, rfl, rfl⟩
  | woken => exact ⟨_, h.mine.record, hnew, rfl, Or.inr rfl, rfl, rfl⟩

/-- The second row is held by the other side, which does not wait. -/
theorem move_taken (hready : x.Ready) {o : OpenTx} (hrecord : y.record c d.other = some o)
    (hmem : c.row d.other ∈ o.held) (hmark : y.mark c d.other = none) :
    c.Advanced t d p q (.waiting false) y := by
  have hheld := holder_of_record h.calm h.theirs hrecord hmem
  rcases h.ready hready with ⟨o, hlive, hnew, _, hb, hidle, hwork⟩
  have hfar : t.store.locks.wouldDeadlock p q = false := by
    rw [← Bool.not_eq_true, RowLocks.wouldDeadlock_iff]
    intro hpath
    rcases Relation.ReflTransGen.cases_head hpath with heq | ⟨next, hahead, _⟩
    · exact h.apart heq.symm
    · rcases (RowLocks.ahead?_eq_some_iff _ _ _).1 hahead with ⟨row, hrow, _⟩
      rw [h.theirs.mark, hmark] at hrow
      simp at hrow
  have hask := Store.ask_taken hlive (r := .query (c.row d.other)) hnew hb (h.calm.there _) hheld
    hfar
  have hrecord : some ({ o with blocked := some ⟨.query (c.row d.other), false⟩ } : OpenTx) =
      Place.record c d (.waiting false) := by
    rcases o with ⟨held, pending, blocked⟩
    cases hidle
    rfl
  refine advanced_of_put h hwork hask rfl hrecord.symm ?_
  rw [RowLocks.startWaiting, Table.get?_insert, if_pos rfl]
  rfl

/-- The other side holds the second row and waits for the first one. -/
theorem move_cycle (hx : x = .asking) {woken : Bool} (hy : y = .waiting woken) :
    c.Advanced t d p q
      (.retreating (.ofStoreFault (Refusal.deadlock p (c.row d.other) q).toFault)) y := by
  rcases h.ready (hx ▸ .asking) with ⟨o, hlive, hnew, _, hb, hidle, hwork⟩
  subst hx hy
  have hheld : t.store.locks.holders.get? (c.row d.other) = some q :=
    holder_of_record h.calm h.theirs rfl (by simp)
  have hmine : t.store.locks.holders.get? (c.row d) = some p :=
    holder_of_record h.calm h.mine rfl (by simp)
  have hback : t.store.locks.wouldDeadlock p q = true := by
    rw [RowLocks.wouldDeadlock_iff]
    refine Relation.ReflTransGen.single
      ((RowLocks.ahead?_eq_some_iff _ _ _).2 ⟨c.row d, ?_, hmine⟩)
    rw [h.theirs.mark, Place.mark, Direction.other_other]
  have hask := Store.ask_cycle hlive (r := .query (c.row d.other)) hnew hb (h.calm.there _) hheld
    hback
  refine advanced_of_put h hwork hask rfl (hidle ▸ rfl) ?_
  rw [RowLocks.stopWaiting, Table.get?_erase, if_pos rfl]
  rfl

/-- The other side has given its rows back. -/
theorem move_free (hready : x.Ready) {outcome : Except Failure Unit} (hy : y.Over outcome) :
    c.Advanced t d p q .writing y := by
  rcases h.ready hready with ⟨o, hlive, hnew, hpending, hb, hidle, hwork⟩
  have hfree : t.store.locks.holders.get? (c.row d.other) = none := by
    refine h.free ?_ ?_
    · intro o' ho'
      rw [← h.mine.record, hlive, Option.some.injEq] at ho'
      exact ho' ▸ hnew
    · intro o' ho'
      cases hy with
      | leaving => simp [Place.record] at ho'
      | gone => simp [Place.record] at ho'
  rcases Store.ask_query_free hlive hnew hpending hb (h.calm.there _) hfree with ⟨amount, hask⟩
  refine advanced_of_put h hwork hask rfl (hidle ▸ rfl) ?_
  rw [RowLocks.take, Table.get?_erase, if_pos rfl]
  rfl

/-- A call that has not been woken waits on. -/
theorem move_unwoken (hx : x = .waiting false) : c.Advanced t d p q (.waiting false) y := by
  subst hx
  have hask := Store.ask_unwoken h.mine.record rfl
  exact advanced_of_ask h rfl hask rfl rfl rfl h.mine.record h.mine.mark

/-- A call that waits does so, woken or not, while the other side has the row and can go on. -/
theorem move_again {woken : Bool} (hx : x = .waiting woken) {o : OpenTx}
    (hrecord : y.record c d.other = some o) (hmem : c.row d.other ∈ o.held)
    (hmark : y.mark c d.other = none) : c.Advanced t d p q (.waiting false) y := by
  cases woken with
  | false => exact move_unwoken h hx
  | true => exact move_taken h (hx ▸ .woken) hrecord hmem hmark

theorem move_writing (hx : x = .writing) : c.Advanced t d p q .writingLast y := by
  subst hx
  have hask : t.store.ask p (.update (c.row d) (c.amount d).neg) = _ :=
    Store.ask_update_held h.mine.record rfl (by simp) rfl
  exact advanced_of_put h rfl hask rfl rfl h.mine.mark

theorem move_writingLast (hx : x = .writingLast) : c.Advanced t d p q .committing y := by
  subst hx
  have hpending : (Table.empty.insert (c.row d) (c.amount d).neg).get? (c.row d.other) = none := by
    rw [Table.get?_insert, if_neg (c.row_ne d)]
    rfl
  have hask : t.store.ask p (.update (c.row d.other) (c.amount d)) = _ :=
    Store.ask_update_held h.mine.record rfl (by simp) hpending
  exact advanced_of_put h rfl hask rfl rfl h.mine.mark

/-- A side whose transaction ends wakes the other one. -/
theorem standing_end {w : Work Unit} {o : OpenTx} {outcome : Except Failure Unit}
    (hwork : x.work c d = some w) (hrecord : x.record c d = some o)
    (hdone : ∀ outcome, w ≠ .done outcome) (hcrash : w ≠ .crash)
    (hgoes : (w.step p t.service).1 = .done outcome)
    (hlive : (w.step p t.service).2.store.live = (t.store.release p).live)
    (hlocks : (w.step p t.service).2.store.locks = (t.store.release p).locks) :
    c.Standing (t.step c.operation (.advance p)).2 d p q (.leaving outcome) y.wake := by
  have hopen := h.mine.record.trans hrecord
  have hended : (w.step p t.service).2.store.live.get? p = none := by
    rw [hlive]
    exact Store.ended_release t.store p
  have hmark : (w.step p t.service).2.store.locks.waits.get? p = none := by
    rw [hlocks, Store.release_locks hopen, RowLocks.waits_release, if_pos rfl]
  have hat : c.At d (t.step c.operation (.advance p)).2 p (.leaving outcome) :=
    at_go h.calm h.mine hwork hdone hcrash (hgoes ▸ rfl) hended hmark
  rcases standing_go h hwork hdone hcrash hat with
    ⟨y', hy' | hy', hstanding⟩
  · -- The call of the other side has been woken, if there is one.
    have hwoken : y.record c d.other = (y.record c d.other).map OpenTx.wake := by
      have hrecord' := (hy' ▸ hstanding).theirs.record
      rw [h.mine.step_eq hwork hdone hcrash] at hrecord'
      calc y.record c d.other
          _ = (w.step p t.service).2.store.live.get? q := hrecord'.symm
          _ = (t.store.live.get? q).map OpenTx.wake := by
            rw [hlive, Store.live_release hopen, if_neg h.apart]
          _ = (y.record c d.other).map OpenTx.wake := by rw [h.theirs.record]
    have hsame : y.wake = y := by
      cases y with
      | waiting woken =>
          cases woken with
          | true => rfl
          | false => simp [Place.record, OpenTx.wake] at hwoken
      | _ => rfl
    rw [hsame, ← hy']
    exact hstanding
  · exact hy' ▸ hstanding

/-- A side rolls back. -/
theorem move_retreating {e : Failure} (hx : x = .retreating e) :
    let t' := (t.step c.operation (.advance p)).2
    (t.step c.operation (.advance p)).1 = [] ∧ t'.store.accounts = t.store.accounts ∧
      t'.store.conflictsDue = t.store.conflictsDue ∧
      c.Standing t' d p q (.leaving (.error e)) y.wake := by
  subst hx
  have hplan := h.calm.sound.plan
  have hdone : ∀ outcome, (Work.conclude (.error e) : Work Unit) ≠ .done outcome := by
    simp [Work.conclude]
  have hcrash : (Work.conclude (.error e) : Work Unit) ≠ .crash := by simp [Work.conclude]
  have hstore : ((Work.conclude (.error e) : Work Unit).step p t.service).2.store =
      t.store.release p := Service.rollback_store p hplan
  have hgoes : ((Work.conclude (.error e) : Work Unit).step p t.service).1 = .done (.error e) := by
    have hanswer := Service.rollback_answer p hplan
    simp only [Work.conclude, Work.step]
    rw [hanswer]
  have hend := standing_end h rfl rfl hdone hcrash hgoes (hstore ▸ rfl) (hstore ▸ rfl)
  have heq := h.mine.step_eq (w := .conclude (.error e)) rfl hdone hcrash
  have hstore' : (t.step c.operation (.advance p)).2.store = t.store.release p := by
    rw [heq]
    exact hstore
  exact ⟨by rw [heq], by rw [hstore', Store.release_accounts],
    by rw [hstore', Store.release_conflictsDue], hend⟩

/-- A side commits. -/
theorem move_committing (hx : x = .committing) :
    let t' := (t.step c.operation (.advance p)).2
    (t.step c.operation (.advance p)).1 = [] ∧
      t'.store.accounts = t.store.settledAccounts (c.deltas d).entries ∧
      c.Standing t' d p q (.leaving (t.store.outcome (c.deltas d).entries)) y.wake := by
  subst hx
  have hplan := h.calm.sound.plan
  have hdone : ∀ outcome, (Work.conclude (.ok ()) : Work Unit) ≠ .done outcome := by
    simp [Work.conclude]
  have hcrash : (Work.conclude (.ok ()) : Work Unit) ≠ .crash := by simp [Work.conclude]
  rcases Store.commit_eq_verdict h.mine.record with ⟨hanswer, haccounts, hlive, hlocks⟩
  have hstore : ((Work.conclude (.ok ()) : Work Unit).step p t.service).2.store =
      (t.store.commit p).2 := Service.commit_store p hplan
  have hgoes : ((Work.conclude (.ok ()) : Work Unit).step p t.service).1 =
      .done (t.store.outcome (c.deltas d).entries) := by
    have htold := Service.commit_answer p hplan
    rw [show t.service.store = t.store from rfl, hanswer] at htold
    simp only [Work.conclude, Work.step]
    rw [htold, Store.outcome, deltas]
    cases t.store.verdict _ with
    | ok => rfl
    | error => rfl
  have hend := standing_end h rfl rfl hdone hcrash hgoes (hstore ▸ hlive) (hstore ▸ hlocks)
  have heq := h.mine.step_eq (w := .conclude (.ok ())) rfl hdone hcrash
  have hstore' : (t.step c.operation (.advance p)).2.store = (t.store.commit p).2 := by
    rw [heq]
    exact hstore
  exact ⟨by rw [heq], by rw [hstore', haccounts], hend⟩

/-- A side returns. -/
theorem move_leaving {outcome : Except Failure Unit} (hx : x = .leaving outcome) :
    let t' := (t.step c.operation (.advance p)).2
    (t.step c.operation (.advance p)).1 = [.returned d (some p) outcome] ∧
      t'.store.accounts = t.store.accounts ∧ t'.store.conflictsDue = t.store.conflictsDue ∧
      c.Standing t' d p q (.gone outcome) y := by
  subst hx
  have hcalm : c.Calm (t.step c.operation (.advance p)).2 := calm_step h.calm trivial
  have heq : t.step c.operation (.advance p) =
      ([.returned d (some p) outcome], t.close p) := by
    rw [Traffic.step, h.mine.task_of_work rfl]
    rfl
  have hsame : (t.close p).store = t.store := Store.release_of_ended h.mine.record
  simp only [heq] at hcalm ⊢
  refine ⟨trivial, hsame ▸ rfl, hsame ▸ rfl, hcalm, h.apart, ?_, ?_, ?_⟩
  · intro tx task htask
    rw [Traffic.close, Table.get?_erase] at htask
    by_cases hc : p = tx
    · simp [hc] at htask
    · rw [if_neg hc] at htask
      exact h.only tx task htask
  · refine ⟨hsame ▸ h.mine.begun, ?_, hsame ▸ h.mine.record, hsame ▸ h.mine.mark⟩
    rw [Traffic.close, Table.get?_erase, if_pos rfl]
    rfl
  · refine ⟨hsame ▸ h.theirs.begun, ?_, hsame ▸ h.theirs.record, hsame ▸ h.theirs.mark⟩
    rw [Traffic.close, Table.get?_erase, if_neg h.apart]
    exact h.theirs.task

end Moves

end Standoff

end RowLedger
