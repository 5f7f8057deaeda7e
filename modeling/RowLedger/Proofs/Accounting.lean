import Mathlib.Algebra.BigOperators.Group.List.Basic
import Mathlib.Algebra.Order.BigOperators.Group.List
import Mathlib.Algebra.Order.Group.Nat
import RowLedger.Proofs.Cancellation
import RowLedger.Retry.Fleet

/-!
# The accounts of a shared tally

Calls that share a tally count right together, however they are interleaved
and however they end. Each attempt that has ended is counted once: as a retry
if it was not the first of its call, as a success if it then ended with a
value, and as a conflict if it met one. An attempt that was dropped or that
crashed is not counted, and neither is a scope that fires while no attempt is
under way. Where a call is in the middle of recording, the tally is short of
what it has yet to record, and of nothing else.

There are never more retries than conflicts. A call makes another attempt only
after a conflict, and it has recorded that one by the time the other one ends.

## Main definitions

* `RetryCall.Went`: What a beat can do to a call and to the tally.
* `Member.Sound`: Of the attempts of a call all but the last met conflicts, and
  what is to be recorded is about the last.
* `Tracks`: A counter and what it is to count.
* `Fleet.Stepped`: What a turn can do.

## Theorems

* `went_step`: Every beat is of one of four kinds.
* `step_tally`: What is to be recorded is what a beat does to the tally.
* `sound_move`, `sound_after`: Every call stays sound.
* `counted_step`, `counted_after`: A counter counts what it is to count.
* `tally_accounts`: The accounts of a shared tally.
-/

namespace RowLedger

namespace RetryCall

variable {α : Type} {rules : RetryRules α} {c c' : RetryCall α} {b : Bench} {t t' : Tally}

/-- What a beat can do to a call and to the tally, and the outcome of the attempt that ends. -/
inductive Went (rules : RetryRules α) (c : RetryCall α) (t : Tally) :
    Option (Except Failure α) → RetryCall α → Tally → Prop where
  | ended {c' : RetryCall α} {b : Bench} (outcome : Except Failure α) (htrying : c.isTrying = true)
      (hattempt : c'.attempt = c.attempt) (htally : b.tally = t) :
      Went rules c t (some outcome) (c'.attemptEnded rules outcome b).1
        (c'.attemptEnded rules outcome b).2.tally
  /-- The call is where it was, or further on in the same attempt. -/
  | stayed {c' : RetryCall α} (htrying : c'.isTrying = c.isTrying) (hover : c'.isOver = c.isOver)
      (hattempt : c'.attempt = c.attempt) : Went rules c t none c' t
  /-- The next attempt begins. -/
  | again {c' : RetryCall α} (hidle : c.isTrying = false) (hover : c.isOver = false)
      (htrying : c'.isTrying = true) (hattempt : c'.attempt = c.attempt + 1) :
      Went rules c t none c' t
  /-- The call is over, and no attempt of it has ended now. -/
  | left {c' : RetryCall α} (hover : c'.isOver = true) : Went rules c t none c' t

theorem isOver_of_isTrying (h : c.isTrying = true) : c.isOver = false := by
  rw [isTrying] at h
  rw [isOver]
  cases hphase : c.phase with
  | «over» how => simp [hphase] at h
  | beginning => rfl
  | blocked => rfl
  | pausing => rfl
  | sleeping => rfl

theorem went_advanced (htrying : c.isTrying = true) (hattempt : c'.attempt = c.attempt)
    (tx : TxId) (progress : Work.Progress α × Service) (t : Tally) :
    Went rules c t progress.1.outcome? (c'.advanced rules tx progress t).1
      (c'.advanced rules tx progress t).2.tally := by
  have hover := isOver_of_isTrying htrying
  rcases progress with ⟨progress, s⟩
  cases progress with
  | ended outcome => exact .ended outcome htrying hattempt rfl
  | blocked r next => exact .stayed htrying.symm hover.symm hattempt
  | pausing millis next => exact .stayed htrying.symm hover.symm hattempt
  | crashed => exact .left rfl

theorem went_cutOff (htrying : c.isTrying = true) (tx : TxId) (e : Failure) (b : Bench) :
    Went rules c b.tally (some (.error e)) (c.cutOff rules tx e b).1
      (c.cutOff rules tx e b).2.tally := by
  rcases Work.run_conclude_error (α := α) tx e (b.service.abandon tx) with ⟨s, hrun, _⟩
  rw [cutOff, hrun]
  exact .ended _ htrying rfl rfl

theorem went_fire (c : RetryCall α) (e : Failure) (b : Bench) :
    Went rules c b.tally (if c.isTrying then some (.error e) else none) (c.fire rules e b).1
      (c.fire rules e b).2.tally := by
  rw [fire]
  cases hphase : c.phase with
  | beginning fault =>
      have htrying : c.isTrying = true := by rw [isTrying, hphase]
      rw [if_pos htrying]
      exact .ended _ htrying rfl rfl
  | blocked tx r next =>
      have htrying : c.isTrying = true := by rw [isTrying, hphase]
      rw [if_pos htrying]
      exact went_cutOff htrying tx e b
  | pausing tx millis next =>
      have htrying : c.isTrying = true := by rw [isTrying, hphase]
      rw [if_pos htrying]
      exact went_cutOff htrying tx e b
  | sleeping wait =>
      rw [isTrying, hphase]
      exact .left rfl
  | «over» how =>
      rw [isTrying, hphase]
      exact .stayed rfl rfl rfl

theorem went_resumeAt (gait : Work.Gait α) (c : RetryCall α) (b : Bench) :
    Went rules c b.tally (c.outcomeAt? gait rules b.service) (c.resumeAt gait rules b).1
      (c.resumeAt gait rules b).2.tally := by
  rw [resumeAt, outcomeAt?]
  cases hphase : c.phase with
  | beginning fault =>
      have htrying : c.isTrying = true := by rw [isTrying, hphase]
      cases fault with
      | some fault => exact .ended _ htrying rfl rfl
      | none =>
          have hnext : (⟨c.attempt, c.invoked + 1, .beginning none⟩ : RetryCall α).attempt =
            c.attempt := rfl
          exact went_advanced htrying hnext _ _ b.tally
  | blocked tx r next =>
      exact went_advanced (by rw [isTrying, hphase]) rfl tx _ b.tally
  | pausing tx millis next =>
      exact went_advanced (by rw [isTrying, hphase]) rfl tx _ b.tally
  | sleeping wait => exact .again (by rw [isTrying, hphase]) (by rw [isOver, hphase]) rfl rfl
  | «over» how => exact .stayed rfl rfl rfl

theorem went_abandon (c : RetryCall α) (b : Bench) :
    Went rules c b.tally none (c.abandon b).1 (c.abandon b).2.tally := by
  rw [abandon]
  cases hphase : c.phase with
  | «over» how => exact .stayed rfl rfl rfl
  | beginning fault => exact .left rfl
  | blocked tx r next => exact .left rfl
  | pausing tx millis next => exact .left rfl
  | sleeping wait => exact .left rfl

/-- What becomes of a call whose attempt has ended. -/
theorem attemptEnded_call (rules : RetryRules α) (c : RetryCall α) (outcome : Except Failure α)
    (b : Bench) :
    (c.attemptEnded rules outcome b).1.attempt = c.attempt ∧
      (c.attemptEnded rules outcome b).1.isTrying = false ∧
      ((c.attemptEnded rules outcome b).1.isOver = false → rules.meetsConflict outcome = true) := by
  cases outcome with
  | ok a => exact ⟨rfl, rfl, fun hover => by simp [attemptEnded, isOver] at hover⟩
  | error e =>
      rw [attemptEnded]
      by_cases hconflict : rules.isConflict e = true
      · by_cases hlast : rules.backoff.retries ≤ c.attempt
        · simp only [if_pos hconflict, if_pos hlast]
          exact ⟨trivial, rfl, fun _ => hconflict⟩
        · simp only [if_pos hconflict, if_neg hlast]
          exact ⟨trivial, rfl, fun _ => hconflict⟩
      · simp only [if_neg hconflict]
        exact ⟨trivial, rfl, fun hover => by simp [isOver] at hover⟩

theorem countRetry_eq (c : RetryCall α) (success : Bool) (t : Tally) :
    c.countRetry success t =
      (if c.attempt = 0 then [] else [Recording.retry success]).foldl Tally.record t := by
  rw [countRetry]
  split
  · rfl
  · rfl

/-- What a call does to the tally when an attempt has ended. -/
theorem attemptEnded_tally (rules : RetryRules α) (c : RetryCall α) (outcome : Except Failure α)
    (b : Bench) :
    (c.attemptEnded rules outcome b).2.tally =
      (rules.recordings c.attempt outcome).foldl Tally.record b.tally := by
  rw [RetryRules.recordings, List.foldl_append, ← countRetry_eq]
  cases outcome with
  | ok a => rfl
  | error e =>
      rw [attemptEnded, RetryRules.meetsConflict]
      by_cases hconflict : rules.isConflict e = true
      · by_cases hlast : rules.backoff.retries ≤ c.attempt
        · simp only [if_pos hconflict, if_pos hlast]
          rfl
        · simp only [if_pos hconflict, if_neg hlast]
          rfl
      · simp only [if_neg hconflict]
        rfl

end RetryCall

namespace Course

variable {α : Type}

/-- Every beat is of one of four kinds. -/
theorem went_step (rules : RetryRules α) (scope : Scope) (c : Course α) (beat : Beat α) :
    RetryCall.Went rules c.call c.bench.tally (c.outcome? rules scope beat)
      (c.step rules scope beat).call (c.step rules scope beat).bench.tally := by
  cases beat with
  | others events => exact .stayed rfl rfl rfl
  | drop => exact RetryCall.went_abandon c.call c.bench
  | giveUp instead =>
      rw [step, giveUp, outcome?]
      cases hphase : c.call.phase with
      | blocked tx r next =>
          refine .stayed ?_ ?_ rfl
          · simp only [RetryCall.isTrying, hphase]
          · simp only [RetryCall.isOver, hphase]
      | beginning fault => exact .stayed rfl rfl rfl
      | pausing tx millis next => exact .stayed rfl rfl rfl
      | sleeping wait => exact .stayed rfl rfl rfl
      | «over» how => exact .stayed rfl rfl rfl
  | poll now limitFirst company =>
      rw [step, outcome?]
      cases scope.notice? limitFirst now with
      | some e => exact RetryCall.went_fire c.call e c.bench
      | none => exact RetryCall.went_resumeAt _ c.call c.bench

end Course

namespace Member

variable {α : Type} {m : Member α}

/-- All attempts that have ended met conflicts, but perhaps the last one, and what is to be
recorded is about that one. -/
structure Sound (m : Member α) : Prop where
  before : ∀ outcome ∈ m.ended.dropLast, m.rules.meetsConflict outcome = true
  /-- Only after a conflict a call goes on. -/
  ongoing : m.call.isOver = false → ∀ outcome ∈ m.ended, m.rules.meetsConflict outcome = true
  trying : m.call.isTrying = true → m.ended.length = m.call.attempt
  waiting : m.call.isOver = false → m.call.isTrying = false →
    m.ended.length = m.call.attempt + 1
  due : m.due = [] ∨ ∃ outcome, m.ended.getLast? = some outcome ∧
    m.due <:+ m.rules.recordings (m.ended.length - 1) outcome

/-- What a beat makes of a call and of the tally. -/
theorem went_move (m : Member α) (found : Service) (t : Tally) (beat : Beat α) :
    ∃ outcome call t', RetryCall.Went m.rules m.call t outcome call t' ∧
      m.move found t beat =
        { m with
          call
          ended := m.ended ++ outcome.toList
          due := (outcome.map (m.rules.recordings m.call.attempt)).getD [] } ∧
      ((m.course found t).step m.rules m.scope beat).bench.tally = t' :=
  ⟨_, _, _, (m.course found t).went_step m.rules m.scope beat, rfl, rfl⟩

/-- What is to be recorded is what a beat does to the tally. -/
theorem step_tally (m : Member α) (found : Service) (t : Tally) (beat : Beat α) :
    ((m.course found t).step m.rules m.scope beat).bench.tally =
      (m.move found t beat).due.foldl Tally.record t := by
  rcases m.went_move found t beat with ⟨outcome, call, t', hwent, hmove, htally⟩
  rw [hmove, htally]
  cases hwent with
  | ended outcome htrying hattempt hbefore =>
      rw [RetryCall.attemptEnded_tally, hattempt, hbefore]
      rfl
  | stayed => rfl
  | again => rfl
  | left => rfl

/-- An attempt that ends is the next one, and what is to be recorded is about it. -/
theorem ended_move (h : m.Sound) (found : Service) (t : Tally) (beat : Beat α) :
    ((m.move found t beat).ended = m.ended ∧ (m.move found t beat).due = []) ∨
      ∃ outcome, (m.move found t beat).ended = m.ended ++ [outcome] ∧
        (m.move found t beat).due = m.rules.recordings m.ended.length outcome := by
  rcases m.went_move found t beat with ⟨outcome, call, t', hwent, hmove, _⟩
  rw [hmove]
  cases hwent with
  | ended outcome htrying hattempt htally =>
      refine Or.inr ⟨outcome, rfl, ?_⟩
      rw [h.trying htrying]
      rfl
  | stayed => exact Or.inl ⟨List.append_nil _, rfl⟩
  | again => exact Or.inl ⟨List.append_nil _, rfl⟩
  | left => exact Or.inl ⟨List.append_nil _, rfl⟩

/-- A beat that ends no attempt adds nothing to what is known of the attempts. -/
theorem sound_quiet (h : m.Sound) {call : RetryCall α}
    (hgoing : call.isOver = false → m.call.isOver = false)
    (htrying : call.isTrying = true → m.ended.length = call.attempt)
    (hwaiting : call.isOver = false → call.isTrying = false →
      m.ended.length = call.attempt + 1) :
    Sound { m with call, ended := m.ended ++ [], due := [] } := by
  rw [List.append_nil]
  exact ⟨h.before, fun hover => h.ongoing (hgoing hover), htrying, hwaiting, Or.inl rfl⟩

theorem sound_move (h : m.Sound) (found : Service) (t : Tally) (beat : Beat α) :
    (m.move found t beat).Sound := by
  rcases m.went_move found t beat with ⟨outcome, call, t', hwent, hmove, _⟩
  rw [hmove]
  cases hwent with
  | @ended c' b outcome htrying hattempt htally =>
      rcases RetryCall.attemptEnded_call m.rules c' outcome b with ⟨hnumber, hidle, hconflict⟩
      have hbefore := h.ongoing (RetryCall.isOver_of_isTrying htrying)
      have hlength := h.trying htrying
      refine ⟨?_, ?_, ?_, ?_, Or.inr ⟨outcome, ?_, ?_⟩⟩
      · simpa using hbefore
      · intro hover o ho
        rcases List.mem_append.1 ho with hold | hnew
        · exact hbefore o hold
        · rw [List.mem_singleton.1 hnew]
          exact hconflict hover
      · intro hc
        rw [hidle] at hc
        simp at hc
      · intro _ _
        simp only [Option.toList_some, List.length_append, List.length_singleton]
        rw [hnumber, hattempt, hlength]
      · simp
      · simp [hlength]
  | stayed htrying hover hattempt =>
      refine sound_quiet h (fun hc => hover ▸ hc) ?_ ?_
      · intro hc
        rw [h.trying (htrying ▸ hc), hattempt]
      · intro hc hidle
        rw [h.waiting (hover ▸ hc) (htrying ▸ hidle), hattempt]
  | again hidle hover htrying hattempt =>
      refine sound_quiet h (fun _ => hover) ?_ ?_
      · intro _
        rw [h.waiting hover hidle, hattempt]
      · intro _ hc
        rw [htrying] at hc
        simp at hc
  | left hover =>
      refine sound_quiet h ?_ ?_ ?_
      · intro hc
        rw [hover] at hc
        simp at hc
      · intro hc
        rw [RetryCall.isOver_of_isTrying hc] at hover
        simp at hover
      · intro hc
        rw [hover] at hc
        simp at hc

/-- To record something leaves less to be recorded. -/
theorem sound_record (h : m.Sound) {r : Recording} {rest : List Recording}
    (hdue : m.due = r :: rest) : Sound { m with due := rest } := by
  refine ⟨h.before, h.ongoing, h.trying, h.waiting, Or.inr ?_⟩
  rcases h.due with hnone | ⟨outcome, hlast, hsuffix⟩
  · rw [hdue] at hnone
    simp at hnone
  · rw [hdue] at hsuffix
    exact ⟨outcome, hlast, (List.suffix_cons r rest).trans hsuffix⟩

theorem sound_enter (rules : RetryRules α) (scope : Scope) (now : Nat) (b : Bench) :
    Sound ⟨rules, scope, (RetryCall.enter (scope.fired? now) b).1, [], []⟩ := by
  refine ⟨by simp, by simp, ?_, ?_, Or.inl rfl⟩
  · cases scope.fired? now with
    | some e => simp [RetryCall.enter, RetryCall.isTrying]
    | none => simp [RetryCall.enter, RetryCall.attemptFrom]
  · cases scope.fired? now with
    | some e => simp [RetryCall.enter, RetryCall.isOver]
    | none => simp [RetryCall.enter, RetryCall.attemptFrom, RetryCall.isTrying]

end Member

namespace RetryRules

variable {α : Type}

theorem countP_recordings (counts : Recording → Bool) (rules : RetryRules α) (attempt : Nat)
    (outcome : Except Failure α) :
    (rules.recordings attempt outcome).countP counts =
      (if attempt = 0 then 0 else (counts (.retry outcome.isOk)).toNat) +
        if rules.meetsConflict outcome then (counts .conflict).toNat else 0 := by
  rw [recordings, List.countP_append]
  congr 1
  · by_cases hfirst : attempt = 0
    · simp [hfirst]
    · cases hcounts : counts (.retry outcome.isOk) <;> simp [hfirst, hcounts]
  · cases hconflict : rules.meetsConflict outcome
    · rfl
    · cases hcounts : counts .conflict <;> simp [hcounts]

end RetryRules

/-- A call makes another attempt only after a conflict, and has recorded that one by then. -/
theorem Member.retries_le {α : Type} {m : Member α} (h : m.Sound) :
    m.retries + m.due.countP Recording.isConflict ≤ m.conflicts := by
  rw [retries, conflicts]
  rcases List.eq_nil_or_concat m.ended with hnone | ⟨before, last, hended⟩
  · rcases h.due with hdue | ⟨outcome, hlast, _⟩
    · rw [hnone, hdue]
      rfl
    · rw [hnone] at hlast
      simp at hlast
  · rw [List.concat_eq_append] at hended
    have hbefore : before.countP m.rules.meetsConflict = before.length := by
      rw [List.countP_eq_length]
      intro outcome hmem
      exact h.before outcome (by rw [hended, List.dropLast_concat]; exact hmem)
    have hdue : m.due.countP Recording.isConflict ≤ (m.rules.meetsConflict last).toNat := by
      rcases h.due with hdue | ⟨outcome, hlast, hsuffix⟩
      · rw [hdue, List.countP_nil]
        exact Nat.zero_le _
      · rw [hended, List.getLast?_concat, Option.some.injEq] at hlast
        refine hsuffix.countP_le.trans ?_
        rw [RetryRules.countP_recordings, hlast]
        cases m.rules.meetsConflict outcome <;> simp [Recording.isConflict]
    rw [hended, List.length_tail, List.length_append, List.length_singleton, Nat.add_sub_cancel,
      List.countP_append, hbefore, List.countP_singleton]
    cases hconflict : m.rules.meetsConflict last
    · rw [hconflict] at hdue
      exact Nat.add_le_add_left hdue _
    · rw [hconflict] at hdue
      exact Nat.add_le_add_left hdue _

/-- A counter, the recordings that it counts, and what it is to count of the attempts of a call
that have ended. -/
structure Tracks {α : Type} (counter : Tally → Nat) (counts : Recording → Bool)
    (account : RetryRules α → List (Except Failure α) → Nat) : Prop where
  zero : counter .zero = 0
  record : ∀ t r, counter (t.record r) = counter t + (counts r).toNat
  fresh : ∀ rules, account rules [] = 0
  ended : ∀ rules outcomes outcome, account rules (outcomes ++ [outcome]) =
    account rules outcomes + (rules.recordings outcomes.length outcome).countP counts

section Counters

variable {α : Type}

theorem tracks_conflicts :
    Tracks (α := α) Tally.conflicts Recording.isConflict
      (fun rules outcomes => outcomes.countP rules.meetsConflict) where
  zero := rfl
  record t r := by cases r <;> rfl
  fresh _ := rfl
  ended rules outcomes outcome := by
    rw [RetryRules.countP_recordings, List.countP_append]
    cases h : rules.meetsConflict outcome <;> simp [h, Recording.isConflict]

theorem tracks_retries :
    Tracks (α := α) Tally.retries Recording.isRetry (fun _ outcomes => outcomes.tail.length) where
  zero := rfl
  record t r := by cases r <;> rfl
  fresh _ := rfl
  ended rules outcomes outcome := by
    rw [RetryRules.countP_recordings]
    cases outcomes with
    | nil => simp [Recording.isRetry]
    | cons first rest => simp [Recording.isRetry]

theorem tracks_recovered :
    Tracks (α := α) Tally.recovered Recording.isRecovery
      (fun _ outcomes => outcomes.tail.countP Except.isOk) where
  zero := rfl
  record t r := by
    cases r with
    | conflict => rfl
    | retry success => cases success <;> rfl
  fresh _ := rfl
  ended rules outcomes outcome := by
    rw [RetryRules.countP_recordings]
    cases outcomes with
    | nil => simp [Recording.isRecovery]
    | cons first rest =>
        cases h : outcome.isOk <;> simp [Recording.isRecovery, List.countP_append, h]

end Counters

/-- The sum after one of the terms has changed. -/
theorem sum_map_set {β : Type} (g : β → Nat) {l : List β} {n : Nat} {old : β} (new : β)
    (h : l[n]? = some old) : ((l.set n new).map g).sum + g old = (l.map g).sum + g new := by
  induction l generalizing n with
  | nil => simp at h
  | cons first rest ih =>
      cases n with
      | zero =>
          simp only [List.getElem?_cons_zero, Option.some.injEq] at h
          simp only [List.set_cons_zero, List.map_cons, List.sum_cons, h]
          omega
      | succ n =>
          have hrest := ih (by simpa using h)
          simp only [List.set_cons_succ, List.map_cons, List.sum_cons]
          omega

namespace Fleet

variable {α : Type} {f f' : Fleet α} {counter : Tally → Nat} {counts : Recording → Bool}
  {account : RetryRules α → List (Except Failure α) → Nat}

/-- What a turn can do. -/
inductive Stepped (f : Fleet α) : Fleet α → Prop where
  | same : Stepped f f
  | entered (rules : RetryRules α) (scope : Scope) (now : Nat) (b : Bench) :
      Stepped f { f with
        members := f.members ++
          [⟨rules, scope, (RetryCall.enter (scope.fired? now) b).1, [], []⟩] }
  | moved {number : Nat} {m : Member α} (found : Service) (beat : Beat α)
      (hget : f.members[number]? = some m) (hdue : m.due = []) :
      Stepped f { f with members := f.members.set number (m.move found f.tally beat) }
  | recorded {number : Nat} {m : Member α} {r : Recording} {rest : List Recording}
      (hget : f.members[number]? = some m) (hdue : m.due = r :: rest) :
      Stepped f ⟨f.tally.record r, f.members.set number { m with due := rest }⟩

theorem stepped (f : Fleet α) (turn : Turn α) : f.Stepped (f.step turn) := by
  cases turn with
  | enter rules scope now found => exact .entered rules scope now _
  | beat number found beat =>
      rw [step]
      cases hget : f.members[number]? with
      | none => exact .same
      | some m =>
          by_cases hdue : m.due = []
          · simp only [if_pos hdue]
            exact .moved found beat hget hdue
          · simp only [if_neg hdue]
            exact .same
  | record number =>
      rw [step]
      cases hget : f.members[number]? with
      | none => exact .same
      | some m =>
          cases hdue : m.due with
          | nil =>
              simp only [hdue]
              exact .same
          | cons r rest =>
              simp only [hdue]
              exact .recorded hget hdue

theorem sound_step (h : ∀ m ∈ f.members, m.Sound) (hstep : f.Stepped f') :
    ∀ m ∈ f'.members, m.Sound := by
  have hset : ∀ {number : Nat} {new : Member α}, new.Sound →
      ∀ m ∈ f.members.set number new, m.Sound := by
    intro number new hnew m hm
    rcases List.mem_or_eq_of_mem_set hm with hold | rfl
    · exact h m hold
    · exact hnew
  cases hstep with
  | same => exact h
  | entered rules scope now b =>
      intro m hm
      rcases List.mem_append.1 hm with hold | hnew
      · exact h m hold
      · rw [List.mem_singleton.1 hnew]
        exact Member.sound_enter rules scope now b
  | moved found beat hget hdue =>
      exact hset (Member.sound_move (h _ (List.mem_of_getElem? hget)) found f.tally beat)
  | recorded hget hdue =>
      exact hset (Member.sound_record (h _ (List.mem_of_getElem? hget)) hdue)

/-- What a counter shows and what is to be recorded for it come to what it is to count. -/
def Counted (f : Fleet α) (counter : Tally → Nat) (counts : Recording → Bool)
    (account : RetryRules α → List (Except Failure α) → Nat) : Prop :=
  counter f.tally + f.total (fun m => m.due.countP counts) =
    f.total (fun m => account m.rules m.ended)

/-- One call changes, and the tally with it. -/
theorem counted_set (h : f.Counted counter counts account) {number : Nat} {m new : Member α}
    {t : Tally} (hget : f.members[number]? = some m)
    (hnew : counter t + new.due.countP counts + account m.rules m.ended =
      counter f.tally + m.due.countP counts + account new.rules new.ended) :
    Counted ⟨t, f.members.set number new⟩ counter counts account := by
  have hdues := sum_map_set (fun m => m.due.countP counts) new hget
  have haccounts := sum_map_set (fun m => account m.rules m.ended) new hget
  simp only [Counted, total] at h ⊢
  omega

theorem counted_move (ht : Tracks counter counts account) {m : Member α} (hsound : m.Sound)
    (found : Service) (t : Tally) (beat : Beat α) :
    account m.rules (m.move found t beat).ended =
      account m.rules m.ended + (m.move found t beat).due.countP counts := by
  rcases Member.ended_move hsound found t beat with ⟨hended, hdue⟩ | ⟨outcome, hended, hdue⟩
  · rw [hended, hdue, List.countP_nil, Nat.add_zero]
  · rw [hended, hdue]
    exact ht.ended m.rules m.ended outcome

theorem counted_step (ht : Tracks counter counts account) (hsound : ∀ m ∈ f.members, m.Sound)
    (h : f.Counted counter counts account) (hstep : f.Stepped f') :
    f'.Counted counter counts account := by
  cases hstep with
  | same => exact h
  | entered rules scope now b =>
      simp only [Counted, total, List.map_append, List.sum_append] at h ⊢
      simp [ht.fresh, h]
  | @moved number m found beat hget hdue =>
      have hmove := counted_move ht (hsound m (List.mem_of_getElem? hget)) found f.tally beat
      refine counted_set h hget ?_
      rw [hdue, List.countP_nil]
      change _ = _ + 0 + account m.rules (m.move found f.tally beat).ended
      omega
  | @recorded number m r rest hget hdue =>
      refine counted_set h hget ?_
      rw [ht.record, hdue, List.countP_cons]
      cases counts r
      · rfl
      · simp only [Bool.toNat_true, if_true]
        omega

theorem sound_after (h : ∀ m ∈ f.members, m.Sound) (turns : List (Turn α)) :
    ∀ m ∈ (f.after turns).members, m.Sound := by
  induction turns generalizing f with
  | nil => exact h
  | cons turn rest ih => exact ih (sound_step h (f.stepped turn))

/-- A counter that counts what it is to count goes on doing so. -/
theorem counted_after (ht : Tracks counter counts account) (hsound : ∀ m ∈ f.members, m.Sound)
    (h : f.Counted counter counts account) (turns : List (Turn α)) :
    (f.after turns).Counted counter counts account := by
  induction turns generalizing f with
  | nil => exact h
  | cons turn rest ih =>
      have hstep := f.stepped turn
      exact ih (sound_step hsound hstep) (counted_step ht hsound h hstep)

theorem sound_empty : ∀ m ∈ (empty : Fleet α).members, m.Sound := by simp [empty]

theorem counted_empty (ht : Tracks counter counts account) :
    (empty : Fleet α).Counted counter counts account := by
  rw [Counted, empty, ht.zero]
  rfl

/-- With nothing to be recorded a counter shows what it is to count. -/
theorem counter_eq (h : f.Counted counter counts account) (hdue : ∀ m ∈ f.members, m.due = []) :
    counter f.tally = f.total (fun m => account m.rules m.ended) := by
  have hnone : f.total (fun m => m.due.countP counts) = 0 := by
    rw [total, List.sum_eq_zero_iff_forall_eq_nat]
    intro n hn
    rcases List.mem_map.1 hn with ⟨m, hm, rfl⟩
    simp only [hdue m hm, List.countP_nil]
  rw [← h, hnone, Nat.add_zero]

/-- A success is recorded as a retry, too. -/
theorem recovered_le_step (h : f.tally.recovered ≤ f.tally.retries) (hstep : f.Stepped f') :
    f'.tally.recovered ≤ f'.tally.retries := by
  cases hstep with
  | same => exact h
  | entered => exact h
  | moved => exact h
  | @recorded number m r rest hget hdue =>
      cases r with
      | conflict => exact h
      | retry success =>
          cases success with
          | false => exact Nat.le_succ_of_le h
          | true => exact Nat.succ_le_succ h

theorem recovered_le_after (h : f.tally.recovered ≤ f.tally.retries) (turns : List (Turn α)) :
    (f.after turns).tally.recovered ≤ (f.after turns).tally.retries := by
  induction turns generalizing f with
  | nil => exact h
  | cons turn rest ih => exact ih (recovered_le_step h (f.stepped turn))

theorem retries_le (hsound : ∀ m ∈ f.members, m.Sound)
    (hretries : f.Counted Tally.retries Recording.isRetry fun _ outcomes => outcomes.tail.length)
    (hconflicts : f.Counted Tally.conflicts Recording.isConflict
      fun rules outcomes => outcomes.countP rules.meetsConflict) :
    f.tally.retries ≤ f.tally.conflicts := by
  have hle : f.total (fun m => m.ended.tail.length + m.due.countP Recording.isConflict) ≤
      f.total (fun m => m.ended.countP m.rules.meetsConflict) :=
    List.sum_le_sum fun m hm => Member.retries_le (hsound m hm)
  rw [total, List.sum_map_add] at hle
  simp only [Counted, total] at hretries hconflicts hle
  omega

/-- The accounts of a shared tally. At every moment it has counted each attempt that has ended, but
for what a call has yet to record of its last one. -/
theorem tally_accounts (turns : List (Turn α)) :
    let f := (empty : Fleet α).after turns
    f.tally.conflicts + f.total (·.due.countP Recording.isConflict) = f.total Member.conflicts ∧
      f.tally.retries + f.total (·.due.countP Recording.isRetry) = f.total Member.retries ∧
      f.tally.recovered + f.total (·.due.countP Recording.isRecovery) =
        f.total Member.recovered ∧
      ((∀ m ∈ f.members, m.due = []) →
        f.tally = ⟨f.total Member.conflicts, f.total Member.retries, f.total Member.recovered⟩) ∧
      f.tally.recovered ≤ f.tally.retries ∧ f.tally.retries ≤ f.tally.conflicts ∧
      ∀ m ∈ f.members,
        (m.due = [] ∨ ∃ outcome, m.ended.getLast? = some outcome ∧
          m.due <:+ m.rules.recordings (m.ended.length - 1) outcome) ∧
        ∀ found beat, ((m.course found f.tally).step m.rules m.scope beat).bench.tally =
          (m.move found f.tally beat).due.foldl Tally.record f.tally := by
  intro f
  have hsound : ∀ m ∈ f.members, m.Sound := sound_after sound_empty turns
  have hconflicts := counted_after (tracks_conflicts (α := α)) sound_empty
    (counted_empty tracks_conflicts) turns
  have hretries := counted_after (tracks_retries (α := α)) sound_empty
    (counted_empty tracks_retries) turns
  have hrecovered := counted_after (tracks_recovered (α := α)) sound_empty
    (counted_empty tracks_recovered) turns
  refine ⟨hconflicts, hretries, hrecovered, ?_, recovered_le_after (Nat.le_refl _) turns,
    retries_le hsound hretries hconflicts, ?_⟩
  · intro hdue
    have h₁ := counter_eq hconflicts hdue
    have h₂ := counter_eq hretries hdue
    have h₃ := counter_eq hrecovered hdue
    calc f.tally = ⟨f.tally.conflicts, f.tally.retries, f.tally.recovered⟩ := rfl
      _ = _ := by rw [h₁, h₂, h₃]; rfl
  · intro m hm
    exact ⟨(hsound m hm).due, fun found beat => m.step_tally found f.tally beat⟩

/-- The answer is the number of the run. -/
def countingRuns : RetryRules Nat where
  backoff := .default
  draw _ := .zero
  isConflict := Failure.isConflict
  body run := pure run

/-- A store whose next begin is to fail. -/
def engaged : Service :=
  { Service.ofStore .empty with plan := ⟨[some (StoreFault.conflict "40001" "busy")], [], []⟩ }

/-- The first call meets a conflict and succeeds when it tries again. The other one is dropped
meanwhile. -/
def twoCalls : List (Turn Nat) :=
  [.enter countingRuns .never 0 engaged, .enter countingRuns .never 0 default,
    .beat 0 default (.poll 0 false []), .beat 1 default .drop, .record 0,
    .beat 0 default (.poll 20 false []), .beat 0 default (.poll 20 false []), .record 0]

theorem tally_accounts_two_calls :
    let f := (empty : Fleet Nat).after twoCalls
    (∀ m ∈ f.members, m.due = []) ∧ f.members.map (·.ended.length) = [2, 0] ∧
      f.tally = ⟨1, 1, 1⟩ := by
  intro f
  have hdue : ∀ m ∈ f.members, m.due = [] := by decide +kernel
  have hended : f.members.map (·.ended.length) = [2, 0] := by decide +kernel
  rcases tally_accounts twoCalls with ⟨_, _, _, hexact, _⟩
  refine ⟨hdue, hended, (hexact hdue).trans ?_⟩
  decide +kernel

end Fleet

end RowLedger
