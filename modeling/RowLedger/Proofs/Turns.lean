import RowLedger.Proofs.Steps
import RowLedger.Traffic

/-!
# What a turn can do

A turn does one thing to the store at most, and changes the work of one task at
most. All ways in which that can come about are listed once (`Traffic.Turned`),
for a service whose calls are not disturbed by planned faults. What the first
thing in a unit of work does to the store is a list of its own (`Work.Moved`),
since all that is proved about tasks is proved by following their work.

## Main definitions

* `Reply.toAnswer`: A reply, as the one who asked is told.
* `Work.Moved`: What comes of the first thing that work does.
* `Traffic.Turned`: What a turn can do.

## Theorems

* `moved`, `turned`: There are no other ways.
* `plan_step`: A turn plans no faults.
-/

namespace RowLedger

/-- A reply, as the one who asked is told. To wait is not to be told anything. -/
def Reply.toAnswer : Reply → Option (Except StoreFault Decimal)
  | .served amount => some (.ok amount)
  | .refused reason => some (.error reason.toFault)
  | .waiting => none

namespace Service

variable (s : Service) (tx : TxId)

theorem request_answer (r : Request) :
    (s.request tx r).1 = (s.store.ask tx r).1.toAnswer := by
  rw [request]
  split
  · rename_i amount store h
    rw [h]
    rfl
  · rename_i reason store h
    rw [h]
    rfl
  · rename_i store h
    rw [h]
    rfl

theorem request_store (r : Request) : (s.request tx r).2.store = (s.store.ask tx r).2 := by
  rw [request]
  split
  · rename_i amount store h
    rw [h]
  · rename_i reason store h
    rw [h]
    rfl
  · rename_i store h
    rw [h]

theorem request_plan (r : Request) : (s.request tx r).2.plan = s.plan := by
  rw [request]
  split
  · rfl
  · rfl
  · rfl

variable {s} (hplan : s.plan = .empty)
include hplan

theorem commit_answer : (s.commit tx).1 = (s.store.commit tx).1.mapError Refusal.toFault := by
  rw [commit, hplan]
  simp only [FaultPlan.empty]
  split
  · rename_i reason store h
    rw [h]
    rfl
  · rename_i store h
    rw [h]
    rfl

theorem commit_store : (s.commit tx).2.store = (s.store.commit tx).2 := by
  rw [commit, hplan]
  simp only [FaultPlan.empty]
  split
  · rename_i reason store h
    rw [h]
  · rename_i store h
    rw [h]

theorem commit_plan : (s.commit tx).2.plan = .empty := by
  rw [commit, hplan]
  simp only [FaultPlan.empty]
  split
  · rfl
  · rfl

theorem rollback_answer : (s.rollback tx).1 = .ok () := by
  rw [rollback, hplan]
  rfl

theorem rollback_store : (s.rollback tx).2.store = s.store.release tx := by
  rw [rollback, hplan]
  rfl

theorem rollback_plan : (s.rollback tx).2.plan = .empty := by
  rw [rollback, hplan]
  rfl

end Service

namespace Work

variable {α : Type}

/-- What comes of the first thing that work does, for the work and for the store. -/
inductive Moved (tx : TxId) (s : Store) : Work α → Work α × Store → Prop where
  | answered {r : Request} {next : Except StoreFault Decimal → Work α}
      {answer : Except StoreFault Decimal} (hanswer : (s.ask tx r).1.toAnswer = some answer) :
      Moved tx s (.request r next) (next answer, (s.ask tx r).2)
  | waiting {r : Request} {next : Except StoreFault Decimal → Work α}
      (hwait : (s.ask tx r).1 = .waiting) :
      Moved tx s (.request r next) (.request r next, (s.ask tx r).2)
  | committed (next : Except StoreFault Unit → Work α) :
      Moved tx s (.commit next)
        (next ((s.commit tx).1.mapError Refusal.toFault), (s.commit tx).2)
  | rolledBack (next : Except StoreFault Unit → Work α) :
      Moved tx s (.rollback next) (next (.ok ()), s.release tx)
  | paused (millis : Nat) (next : Work α) : Moved tx s (.pause millis next) (next, s)
  | told (notice : Notice) (next : Work α) : Moved tx s (.tell notice next) (next, s)
  | noted (n : Note) (next : Work α) : Moved tx s (.note n next) (next, s)
  /-- There is nothing left to do. -/
  | ended (outcome : Except Failure α) : Moved tx s (.done outcome) (.done outcome, s)
  | crashed : Moved tx s .crash (.crash, s)

variable {tx : TxId} {s : Service}

-- Without planned faults the service adds to the store what is told to the log, and that is not
-- part of a task.
theorem moved (hplan : s.plan = .empty) (work : Work α) :
    Moved tx s.store work ((work.step tx s).1, (work.step tx s).2.store) := by
  cases work with
  | done outcome => exact .ended outcome
  | request r next =>
      have hanswer := Service.request_answer s tx r
      have hstore := Service.request_store s tx r
      rw [step]
      generalize s.request tx r = result at hanswer hstore
      rcases result with ⟨answer, s'⟩
      simp only at hanswer hstore
      cases answer with
      | none =>
          simp only
          rw [hstore]
          refine .waiting ?_
          cases hreply : (s.store.ask tx r).1 with
          | served => simp [hreply, Reply.toAnswer] at hanswer
          | refused => simp [hreply, Reply.toAnswer] at hanswer
          | waiting => rfl
      | some answer =>
          simp only
          rw [hstore]
          exact .answered hanswer.symm
  | commit next =>
      rw [step]
      simp only
      rw [Service.commit_answer tx hplan, Service.commit_store tx hplan]
      exact .committed next
  | rollback next =>
      rw [step]
      simp only
      rw [Service.rollback_answer tx hplan, Service.rollback_store tx hplan]
      exact .rolledBack next
  | pause millis next => exact .paused millis next
  | tell notice next => exact .told notice next
  | note n next => exact .noted n next
  | crash => exact .crashed

theorem step_plan (hplan : s.plan = .empty) (work : Work α) :
    (work.step tx s).2.plan = .empty := by
  cases work with
  | request r next =>
      have hsame := Service.request_plan s tx r
      rw [step]
      generalize s.request tx r = result at hsame
      rcases result with ⟨answer, s'⟩
      cases answer with
      | none => exact hsame.trans hplan
      | some answer => exact hsame.trans hplan
  | commit next => exact Service.commit_plan tx hplan
  | rollback next => exact Service.rollback_plan tx hplan
  | _ => exact hplan

end Work

namespace Traffic

variable {ι : Type} (program : ι → Operation)

/-- What a turn can do, and what is told about it. -/
inductive Turned (t : Traffic ι) : Turn ι → List (Report ι) × Traffic ι → Prop where
  /-- The turn is impossible where it stands. -/
  | nothing (turn : Turn ι) : Turned t turn ([], t)
  | happened {e : Event} {t' : Traffic ι} (hfree : ∀ tx, e.tx? = some tx → t.isTaken tx = false)
      (hstore : t'.store = (t.store.step e).2) (htasks : t'.tasks = t.tasks) :
      Turned t (.event e) ((t.store.step e).1.toList.map .answered, t')
  | settled {label : ι} {outcome : Except Failure Unit}
      (hprogram : program label = .settled outcome) :
      Turned t (.launch label) ([.returned label none outcome], t)
  | launched {label : ι} {body : Work Unit} {t' : Traffic ι}
      (hprogram : program label = .inTransaction body) (hstore : t'.store = t.store.start.2)
      (htasks : t'.tasks = t.tasks.insert t.store.start.1 ⟨label, body⟩) :
      Turned t (.launch label) ([], t')
  | moved {tx : TxId} {task : Task ι} {work : Work Unit} {t' : Traffic ι}
      (htask : t.tasks.get? tx = some task) (hmoved : task.work.Moved tx t.store (work, t'.store))
      (htasks : t'.tasks = t.tasks.insert tx { task with work }) :
      Turned t (.advance tx) ([], t')
  | returned {tx : TxId} {task : Task ι} {outcome : Except Failure Unit}
      (htask : t.tasks.get? tx = some task) (hwork : task.work = .done outcome) :
      Turned t (.advance tx) ([.returned task.label (some tx) outcome], t.close tx)
  | crashed {tx : TxId} {task : Task ι} (htask : t.tasks.get? tx = some task)
      (hwork : task.work = .crash) :
      Turned t (.advance tx) ([.crashed task.label tx], t.close tx)
  | cut {tx : TxId} {task : Task ι} (htask : t.tasks.get? tx = some task) :
      Turned t (.cut tx) ([], t.close tx)

variable {t : Traffic ι}

theorem isTaken_eq_true {tx : TxId} :
    t.isTaken tx = true ↔ ∃ task, t.tasks.get? tx = some task :=
  Option.isSome_iff_exists

theorem advance_eq {tx : TxId} {task : Task ι} (hdone : ∀ outcome, task.work ≠ .done outcome)
    (hcrash : task.work ≠ .crash) :
    t.advance tx task = ([], ⟨(task.work.step tx t.service).2,
      t.tasks.insert tx { task with work := (task.work.step tx t.service).1 }⟩) := by
  rw [advance]
  split
  · rename_i outcome h
    exact absurd h (hdone outcome)
  · rename_i h
    exact absurd h hcrash
  · rfl

variable (hplan : t.service.plan = .empty)
include hplan

theorem turned_advance {tx : TxId} {task : Task ι} (htask : t.tasks.get? tx = some task) :
    Turned program t (.advance tx) (t.advance tx task) := by
  by_cases hdone : ∃ outcome, task.work = .done outcome
  · rcases hdone with ⟨outcome, hwork⟩
    rw [advance, hwork]
    exact .returned htask hwork
  · by_cases hcrash : task.work = .crash
    · rw [advance, hcrash]
      exact .crashed htask hcrash
    · rw [advance_eq (fun outcome h => hdone ⟨outcome, h⟩) hcrash]
      exact .moved htask (Work.moved hplan task.work) rfl

theorem turned (turn : Turn ι) : Turned program t turn (t.step program turn) := by
  cases turn with
  | event e =>
      rw [step]
      by_cases htaken : e.tx?.any t.isTaken = true
      · rw [if_pos htaken]
        exact .nothing _
      · rw [if_neg htaken]
        refine .happened ?_ rfl rfl
        intro tx htx
        rw [htx, Option.any_some, Bool.not_eq_true] at htaken
        exact htaken
  | launch label =>
      rw [step]
      cases hprogram : program label with
      | settled outcome => exact .settled hprogram
      | inTransaction body => exact .launched hprogram rfl rfl
  | advance tx =>
      rw [step]
      cases htask : t.tasks.get? tx with
      | none => exact .nothing _
      | some task => exact turned_advance program hplan htask
  | cut tx =>
      rw [step]
      cases htask : t.tasks.get? tx with
      | none =>
          rw [if_neg]
          · exact .nothing _
          · rw [isTaken_eq_true, htask]
            simp
      | some task =>
          rw [if_pos (isTaken_eq_true.2 ⟨task, htask⟩)]
          exact .cut htask

/-- A turn plans no faults. -/
theorem plan_step (turn : Turn ι) : (t.step program turn).2.service.plan = .empty := by
  cases turn with
  | event e =>
      rw [step]
      split
      · exact hplan
      · exact hplan
  | launch label =>
      rw [step]
      split
      · exact hplan
      · exact hplan
  | advance tx =>
      rw [step]
      split
      · exact hplan
      · rename_i task htask
        rw [advance]
        split
        · exact hplan
        · exact hplan
        · exact Work.step_plan hplan task.work
  | cut tx =>
      rw [step]
      split
      · exact hplan
      · exact hplan

end Traffic

end RowLedger
