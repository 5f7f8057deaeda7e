import RowLedger.Proofs.Consistency
import RowLedger.Proofs.WaitGraph

/-!
# Locking in order

A transaction that only ever asks for rows above all those it holds never
becomes part of a cycle of waits. Its wait points to a row above everything it
has, and this stays so, even for a wait that was given up: to hold more, the
transaction has to take another row, and that wipes the wait out. Along the
waits the rows go up and up, so from the holder of a row nobody is reached who
asks for that row and holds only rows below it.

The condition is one on the requests, at the time when they are made. A call
that waits and looks at its row again holds what it held before.

## Main definitions

* `Store.InOrder`: An event respects the order of the rows.
* `Store.RunsInOrder`: All events of a run do.
* `Store.WaitsUp`: All waits point upwards.

## Theorems

* `no_cycle_above`: Who holds only lower rows closes no cycle.
* `waitsUp_step`: An event in order leaves the waits pointing upwards.
* `no_victim_step`, `no_victim_run`: An event in order has no victim, and
  neither has a run of such events.
-/

namespace RowLedger

open Relation

/-- A row is above all others in a list or one of them. -/
def RowAbove (held : List AccountId) (row : AccountId) : Prop :=
  row ∈ held ∨ ∀ other ∈ held, other < row

namespace Store

/-- An event respects the order of the rows: a request is for a row that is held already or for
one above all that are held. -/
def InOrder (s : Store) : Event → Prop
  | .call tx (.request r) =>
    ∀ t, s.live.get? tx = some t → t.blocked = none → RowAbove t.held r.row
  | _ => True

/-- All events of a run respect the order of the rows. -/
def RunsInOrder (s : Store) : List Event → Prop
  | [] => True
  | e :: rest => s.InOrder e ∧ (s.step e).2.RunsInOrder rest

instance (held : List AccountId) (row : AccountId) : Decidable (RowAbove held row) :=
  inferInstanceAs (Decidable (_ ∨ _))

instance (s : Store) : DecidablePred s.InOrder
  | .call tx (.request r) =>
    inferInstanceAs (Decidable (∀ t ∈ s.live.get? tx, t.blocked = none → RowAbove t.held r.row))
  | .start | .call _ .commit | .call _ .rollback | .poll _ | .abandon _ | .drop _ | .insert ..
  | .inject _ => inferInstanceAs (Decidable True)

instance decidableRunsInOrder :
    ∀ (s : Store) (events : List Event), Decidable (s.RunsInOrder events)
  | _, [] => inferInstanceAs (Decidable True)
  | s, e :: rest =>
    have := decidableRunsInOrder (s.step e).2 rest
    inferInstanceAs (Decidable (_ ∧ _))

/-- All waits point upwards. -/
def WaitsUp (s : Store) : Prop :=
  ∀ tx t row, s.live.get? tx = some t → s.locks.waits.get? tx = some row →
    ∀ other ∈ t.held, other < row

section Cycle

variable {s : Store} (h : s.Consistent) (hup : s.WaitsUp)
include h hup

-- Induction on the path, from the holder on. Whoever is reached holds the row that the one before
-- waits for, and `hup` puts that row above all that the one before holds.
/-- Along the waits the rows go up. -/
theorem held_above_of_reached {row : AccountId} {holder last : TxId}
    (hheld : s.locks.holders.get? row = some holder)
    (hpath : ReflTransGen s.locks.Ahead holder last) :
    ∃ t, s.live.get? last = some t ∧ ∃ other ∈ t.held, row ≤ other := by
  induction hpath with
  | refl =>
      rcases (h.holder_iff row holder).1 hheld with ⟨t, hlive, hmem⟩
      exact ⟨t, hlive, row, hmem, Int.le_refl row⟩
  | @tail middle last _ hstep ih =>
      rcases ih with ⟨t, hlive, other, hmem, hle⟩
      rcases (RowLocks.ahead?_eq_some_iff _ _ _).1 hstep with ⟨next, hwait, hnext⟩
      have hlt := hup middle t next hlive hwait other hmem
      rcases (h.holder_iff next last).1 hnext with ⟨t', hlive', hmem'⟩
      exact ⟨t', hlive', next, hmem', Int.le_trans hle (Int.le_of_lt hlt)⟩

/-- Who asks for a row above all it holds closes no cycle. -/
theorem no_cycle_above {tx holder : TxId} {t : OpenTx} {row : AccountId}
    (hlive : s.live.get? tx = some t) (habove : ∀ other ∈ t.held, other < row)
    (hheld : s.locks.holders.get? row = some holder) :
    s.locks.wouldDeadlock tx holder = false := by
  rw [← Bool.not_eq_true, RowLocks.wouldDeadlock_iff]
  intro hpath
  rcases held_above_of_reached h hup hheld hpath with ⟨t', hlive', other, hmem, hle⟩
  rw [hlive, Option.some.injEq] at hlive'
  exact absurd (habove other (hlive' ▸ hmem)) (Int.not_lt.2 hle)

/-- A call that waits has its row above all that is held. -/
theorem above_of_blocked {tx : TxId} {t : OpenTx} {w : Wait}
    (hlive : s.live.get? tx = some t) (hblocked : t.blocked = some w) :
    ∀ other ∈ t.held, other < w.request.row :=
  hup tx t w.request.row hlive (h.blocked_wait tx t w hlive hblocked)

end Cycle

section Step

variable {s : Store}

/-- A change of the record of one transaction keeps the waits of the others. -/
theorem waitsUp_put {tx : TxId} {t' : OpenTx} {locks : RowLocks} (hup : s.WaitsUp)
    (hothers : ∀ other, other ≠ tx → locks.waits.get? other = s.locks.waits.get? other)
    (hmine : ∀ row, locks.waits.get? tx = some row → ∀ other ∈ t'.held, other < row) :
    (s.put tx t' locks).WaitsUp := by
  intro other o row ho hw
  rw [put_locks] at hw
  rcases live_put_cases ho with ⟨rfl, rfl⟩ | ⟨hne, hold⟩
  · exact hmine row hw
  · rw [hothers other (fun hc => hne hc.symm)] at hw
    exact hup other o row hold hw

theorem waitsUp_release {tx : TxId} {t : OpenTx} (hup : s.WaitsUp)
    (hlive : s.live.get? tx = some t) : (s.release tx).WaitsUp := by
  intro other o row ho hw
  rcases live_release_cases hlive ho with ⟨_, o₀, ho₀, rfl⟩
  exact hup other o₀ row ho₀ (waits_of_release hlive hw).2

theorem waitsUp_examined {tx : TxId} {t : OpenTx} {r : Request} {result : Reply × Store}
    (hup : s.WaitsUp) (habove : ∀ other ∈ t.held, other < r.row)
    (hlook : Examined s tx t r result) : result.2.WaitsUp := by
  -- Only a wait that begins is new, and it is for the row that was asked for.
  have hgone : ∀ other, other ≠ tx →
      (s.locks.waits.erase tx).get? other = s.locks.waits.get? other := by
    intro other hne
    rw [Table.get?_erase, if_neg (fun hc => hne hc.symm)]
  cases hlook with
  | absent => exact waitsUp_put hup hgone (by simp [RowLocks.stopWaiting])
  | granted => exact waitsUp_put hup hgone (by simp [RowLocks.take])
  | cycle => exact waitsUp_put hup hgone (by simp [RowLocks.stopWaiting])
  | waiting =>
      refine waitsUp_put hup ?_ ?_
      · intro other hne
        rw [RowLocks.startWaiting, Table.get?_insert, if_neg (fun hc => hne hc.symm)]
      · intro row hw
        rw [RowLocks.startWaiting, Table.get?_insert, if_pos rfl, Option.some.injEq] at hw
        exact hw ▸ habove

variable (h : s.Consistent) (hup : s.WaitsUp) {e : Event} (horder : s.InOrder e)
include h hup horder

-- A wait points upwards as long as its transaction takes no other row, and to take one ends it.
/-- An event in order leaves the waits pointing upwards. -/
theorem waitsUp_step : (s.step e).2.WaitsUp := by
  have hstep := stepped s e
  generalize s.step e = result at hstep
  cases hstep with
  | nothing => exact hup
  | started =>
      intro tx t row ht hw
      rcases live_start_cases ht with ⟨_, rfl⟩ | hold
      · simp [OpenTx.fresh]
      · exact hup tx t row hold hw
  | closed => exact hup
  | @served tx t r hlive =>
      refine waitsUp_put hup (fun _ _ => rfl) ?_
      rw [OpenTx.serve_held]
      exact fun row => hup tx t row hlive
  | asked hlive hidle hnew hlook =>
      exact waitsUp_examined hup ((horder _ hlive hidle).resolve_left hnew) hlook
  | polled hlive hwoken hlook =>
      exact waitsUp_examined hup (above_of_blocked h hup hlive hwoken) hlook
  | @abandoned tx t hlive =>
      exact waitsUp_put hup (fun _ _ => rfl) (fun row => hup tx t row hlive)
  | dropped hlive => exact waitsUp_release hup hlive
  | rolledBack hlive => exact waitsUp_release hup hlive
  | committed hlive _ hend =>
      have hrel := waitsUp_release hup hlive
      cases hend with
      | conflict => exact hrel
      | rejected => exact hrel
      | applied => exact hrel
  | inserted => exact hup
  | injected => exact hup

omit horder in
/-- A look at a row above all rows that are held finds no cycle. -/
theorem no_victim_examined {tx' : TxId} {t : OpenTx} {r : Request} {result : Reply × Store}
    (hlive : s.live.get? tx' = some t) (habove : ∀ other ∈ t.held, other < r.row)
    (hlook : Examined s tx' t r result) (tx : TxId) (row : AccountId) (holder : TxId) :
    result.1 ≠ .refused (.deadlock tx row holder) := by
  cases hlook with
  | absent => simp
  | granted => exact OpenTx.serve_ne_deadlock _ _ _ _ _ _
  | cycle _ hheld hback =>
      rw [no_cycle_above h hup hlive habove hheld] at hback
      simp at hback
  | waiting => simp

/-- An event in order has no victim. -/
theorem no_victim_step {a : Answer} (hanswer : (s.step e).1 = some a) (tx : TxId)
    (row : AccountId) (holder : TxId) :
    a.outcome ≠ .replied (.refused (.deadlock tx row holder)) := by
  have hstep := stepped s e
  generalize s.step e = result at hstep hanswer
  cases hstep with
  | nothing => simp at hanswer
  | started => simp at hanswer
  | closed hended _ c =>
      rw [Option.some.injEq] at hanswer
      rw [← hanswer]
      cases c with
      | request => simp [Call.whenEnded]
      | commit => simp [Call.whenEnded]
      | rollback => simp [Call.whenEnded]
  | served =>
      rw [Option.some.injEq] at hanswer
      rw [← hanswer]
      simp only [ne_eq, Outcome.replied.injEq]
      exact OpenTx.serve_ne_deadlock _ _ _ _ _ _
  | asked hlive hidle hnew hlook =>
      rw [Option.some.injEq] at hanswer
      rw [← hanswer]
      simp only [ne_eq, Outcome.replied.injEq]
      have habove := (horder _ hlive hidle).resolve_left hnew
      exact no_victim_examined h hup hlive habove hlook tx row holder
  | polled hlive hwoken hlook =>
      rw [Option.some.injEq] at hanswer
      rw [← hanswer]
      simp only [ne_eq, Outcome.replied.injEq]
      have habove := above_of_blocked h hup hlive hwoken
      exact no_victim_examined h hup hlive habove hlook tx row holder
  | abandoned => simp at hanswer
  | dropped => simp at hanswer
  | rolledBack =>
      rw [Option.some.injEq] at hanswer
      simp [← hanswer]
  | @committed tx' t result =>
      rw [Option.some.injEq] at hanswer
      rw [← hanswer]
      rcases result.1 with e | _
      · simp [Outcome.ofResult]
      · simp [Outcome.ofResult]
  | inserted => simp at hanswer
  | injected => simp at hanswer

omit horder in
/-- A run in order has no victim. -/
theorem no_victim_run (events : List Event) (hrun : s.RunsInOrder events) {a : Answer}
    (ha : a ∈ s.answers events) (tx : TxId) (row : AccountId) (holder : TxId) :
    a.outcome ≠ .replied (.refused (.deadlock tx row holder)) := by
  induction events generalizing s with
  | nil => simp [answers] at ha
  | cons e rest ih =>
      rw [answers, List.mem_append, Option.mem_toList] at ha
      rcases ha with hfirst | hlater
      · exact no_victim_step h hup hrun.1 hfirst tx row holder
      · exact ih (consistent_step h e) (waitsUp_step h hup hrun.1) hrun.2 hlater

end Step

end Store

end RowLedger
