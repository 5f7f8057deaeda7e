import RowLedger.Proofs.Accounting

/-!
# The loop of a retried call

What a call does from its entry to its end while its scope does not fire. It
makes one attempt after another until one of them decides, and the first one
that does is the last: an attempt decides with a value, with a failure that is
no conflict, or because the retries are used up. Between two attempts there is
one wait, and none is longer than the cap.

Nothing is assumed about the store. At each poll the call finds it in some
state, and how the work of an attempt goes on from there is left open as well.
So whatever a store answers and however long it takes is one of the runs that
are looked at. All that a call needs to return is that its attempts end.

A call that returns a conflict has used up its retries, and says so in a
failure that is none. So a retried call inside a retried call is not retried.

## Main definitions

* `Poll`: A poll of a call.
* `Chronicle`: A call and what it has done.
* `RetryRules.decides`, `RetryRules.verdict`: The attempt that is the last, and
  what the call returns.
* `RetryRules.story`: The attempts with the waits between them.
* `Chronicle.Stands`: Where a call is, and what it has done by then.

## Theorems

* `attemptEnded_eq`: What follows an attempt that has ended.
* `polled_resumeAt`: What a poll does.
* `stands_polled`, `stands_upTo`: The waits and attempts alternate.
* `exists_over`: A call whose attempts end is over in the end.
* `retry_loop`: What a call does and returns.
-/

namespace RowLedger

/-- A poll of a call, and how its work goes on then. -/
structure Poll (α : Type) where
  now : Nat
  limitFirst : Bool
  gait : Work.Gait α
  /-- What the call finds. -/
  found : Bench

/-- Something that a call has done. -/
inductive Mark (α : Type) where
  /-- An attempt has ended. -/
  | tried (outcome : Except Failure α)
  /-- A wait between two attempts is over. -/
  | slept (wait : Duration)

namespace RetryRules

variable {α : Type} (rules : RetryRules α)

/-- The wait after an attempt. -/
def wait (attempt : Nat) : Duration := rules.backoff.jittered attempt (rules.draw attempt)

/-- There is no other attempt after this one. -/
def decides (attempt : Nat) (outcome : Except Failure α) : Bool :=
  !rules.meetsConflict outcome || decide (rules.backoff.retries ≤ attempt)

/-- What a call returns whose last attempt has this outcome. -/
def verdict : Except Failure α → Except Failure α
  | .ok a => .ok a
  | .error e =>
    if rules.isConflict e then .error (.retriesExhausted (rules.backoff.retries + 1) e)
    else .error e

/-- What a call does in front of an attempt. -/
def before : Nat → List (Mark α)
  | 0 => []
  | attempt + 1 => [.slept (rules.wait attempt)]

/-- Attempts with these outcomes, from one of them on. -/
def storyFrom (attempt : Nat) : List (Except Failure α) → List (Mark α)
  | [] => []
  | outcome :: rest => rules.before attempt ++ .tried outcome :: storyFrom (attempt + 1) rest

/-- Attempts with these outcomes, with the waits between them. -/
def story (outcomes : List (Except Failure α)) : List (Mark α) := rules.storyFrom 0 outcomes

/-- None of the attempts with these outcomes was the last one. -/
def Undecided (outcomes : List (Except Failure α)) : Prop :=
  ∀ attempt outcome, outcomes[attempt]? = some outcome → rules.decides attempt outcome = false

end RetryRules

/-- A call and what it has done. -/
structure Chronicle (α : Type) where
  call : RetryCall α
  marks : List (Mark α)

namespace RetryCall

variable {α : Type}

/-- What a call will have done when it goes on at some gait. -/
def marksAt (gait : Work.Gait α) (rules : RetryRules α) (c : RetryCall α) (s : Service) :
    List (Mark α) :=
  match c.phase with
  | .sleeping wait => [.slept wait]
  | _ => ((c.outcomeAt? gait rules s).map Mark.tried).toList

end RetryCall

namespace Chronicle

variable {α : Type}

/-- A poll. The scope comes first; if it fires during an attempt, the attempt has ended. -/
def step (rules : RetryRules α) (scope : Scope) (c : Chronicle α) (p : Poll α) : Chronicle α :=
  match scope.notice? p.limitFirst p.now with
  | some e =>
    ⟨(c.call.fire rules e p.found).1,
      c.marks ++ if c.call.isTrying then [.tried (.error e)] else []⟩
  | none =>
    ⟨(c.call.resumeAt p.gait rules p.found).1,
      c.marks ++ c.call.marksAt p.gait rules p.found.service⟩

/-- A call that is entered at some instant, after a number of polls. -/
def upTo (rules : RetryRules α) (scope : Scope) (now : Nat) (b : Bench) (polls : Nat → Poll α) :
    Nat → Chronicle α
  | 0 => ⟨(RetryCall.enter (scope.fired? now) b).1, []⟩
  | n + 1 => (upTo rules scope now b polls n).step rules scope (polls n)

end Chronicle

namespace Backoff

theorem nanos_min_le (a b : Duration) : (a.min b).nanos ≤ b.nanos := by
  rw [Duration.min]
  split
  · exact Nat.le_refl _
  · omega

/-- No wait is longer than the cap, whatever is drawn for it. -/
theorem jittered_le_cap (b : Backoff) (attempt : Nat) (draw : Binary64) :
    (b.jittered attempt draw).nanos ≤ b.cap.nanos :=
  nanos_min_le _ _

end Backoff

namespace RetryRules

variable {α : Type} {rules : RetryRules α} {outcomes : List (Except Failure α)}
  {outcome : Except Failure α}

theorem storyFrom_concat (rules : RetryRules α) (attempt : Nat)
    (outcomes : List (Except Failure α)) (last : Except Failure α) :
    rules.storyFrom attempt (outcomes ++ [last]) =
      rules.storyFrom attempt outcomes ++ rules.before (attempt + outcomes.length) ++
        [.tried last] := by
  induction outcomes generalizing attempt with
  | nil => rfl
  | cons outcome rest ih =>
      rw [List.cons_append, storyFrom, ih, storyFrom, List.length_cons,
        Nat.add_right_comm attempt 1, Nat.add_assoc attempt]
      simp only [List.append_assoc, List.cons_append]

theorem story_concat (rules : RetryRules α) (outcomes : List (Except Failure α))
    (last : Except Failure α) :
    rules.story (outcomes ++ [last]) =
      rules.story outcomes ++ rules.before outcomes.length ++ [.tried last] := by
  have := storyFrom_concat rules 0 outcomes last
  rwa [Nat.zero_add] at this

theorem undecided_nil (rules : RetryRules α) : rules.Undecided [] := by
  intro attempt outcome hget
  simp at hget

theorem undecided_concat (h : rules.Undecided outcomes)
    (hlast : rules.decides outcomes.length outcome = false) :
    rules.Undecided (outcomes ++ [outcome]) := by
  intro attempt outcome' hget
  rcases Nat.lt_trichotomy attempt outcomes.length with hlt | rfl | hgt
  · rw [List.getElem?_append_left hlt] at hget
    exact h attempt outcome' hget
  · rw [List.getElem?_concat_length, Option.some.injEq] at hget
    exact hget ▸ hlast
  · rw [List.getElem?_eq_none (by rw [List.length_append, List.length_singleton]; omega)] at hget
    simp at hget

theorem lt_retries_of_decides {attempt : Nat} (h : rules.decides attempt outcome = false) :
    attempt < rules.backoff.retries := by
  rw [decides, Bool.or_eq_false_iff, decide_eq_false_iff_not] at h
  omega

/-- There are no more attempts without a decision than retries. -/
theorem length_le_of_undecided (h : rules.Undecided outcomes) :
    outcomes.length ≤ rules.backoff.retries := by
  rcases List.eq_nil_or_concat' outcomes with rfl | ⟨rest, last, rfl⟩
  · exact Nat.zero_le _
  · have := lt_retries_of_decides (h rest.length last List.getElem?_concat_length)
    rw [List.length_append, List.length_singleton]
    omega

/-- With the default classification a call never returns a conflict. -/
theorem isConflict_verdict (hrules : rules.isConflict = Failure.isConflict) {e : Failure}
    (h : rules.verdict outcome = .error e) : e.isConflict = false := by
  cases outcome with
  | ok a => simp [verdict] at h
  | error e' =>
      rw [verdict] at h
      split at h
      · rw [Except.error.injEq] at h
        rw [← h]
        rfl
      · rename_i hconflict
        rw [Except.error.injEq] at h
        rw [← h, ← hrules, Bool.eq_false_iff]
        exact hconflict

end RetryRules

namespace RetryCall

variable {α : Type} {rules : RetryRules α} {c : RetryCall α}

/-- Where a call stands after an attempt that has ended. -/
def phaseAfter (rules : RetryRules α) (attempt : Nat) (outcome : Except Failure α) :
    CallPhase α :=
  if rules.decides attempt outcome then .over (.returned (rules.verdict outcome))
  else .sleeping (rules.wait attempt)

theorem attemptEnded_eq (hattempt : c.attempt ≤ rules.backoff.retries)
    (outcome : Except Failure α) (b : Bench) :
    (c.attemptEnded rules outcome b).1 =
      { c with phase := phaseAfter rules c.attempt outcome } := by
  cases outcome with
  | ok a => rfl
  | error e =>
      rw [attemptEnded, phaseAfter, RetryRules.decides, RetryRules.meetsConflict,
        RetryRules.verdict]
      by_cases hconflict : rules.isConflict e = true
      · by_cases hlast : rules.backoff.retries ≤ c.attempt
        · have hequal : c.attempt = rules.backoff.retries := Nat.le_antisymm hattempt hlast
          simp only [hconflict, hequal, Nat.le_refl, ↓reduceIte, Bool.not_true, Bool.false_or,
            decide_true]
        · simp only [hconflict, hlast, ↓reduceIte, Bool.not_true, Bool.false_or, decide_false,
            Bool.false_eq_true]
          rfl
      · rw [Bool.not_eq_true] at hconflict
        simp only [hconflict, Bool.false_eq_true, ↓reduceIte, Bool.not_false, Bool.true_or]

/-- What a poll does to a call whose scope has not fired, and what the call has done then. -/
inductive Polled (rules : RetryRules α) (c : RetryCall α) : List (Mark α) → RetryCall α → Prop where
  | ended {c' : RetryCall α} (outcome : Except Failure α) (htrying : c.isTrying = true)
      (hattempt : c'.attempt = c.attempt)
      (hphase : c'.phase = phaseAfter rules c.attempt outcome) :
      Polled rules c [.tried outcome] c'
  /-- The attempt is not yet at its end. -/
  | ongoing {c' : RetryCall α} (htrying : c.isTrying = true) (htrying' : c'.isTrying = true)
      (hattempt : c'.attempt = c.attempt) : Polled rules c [] c'
  | crashed {c' : RetryCall α} (htrying : c.isTrying = true) (hattempt : c'.attempt = c.attempt)
      (hphase : c'.phase = .over .crashed) : Polled rules c [] c'
  /-- The next attempt begins. -/
  | again {c' : RetryCall α} {wait : Duration} (hphase : c.phase = .sleeping wait)
      (htrying : c'.isTrying = true) (hattempt : c'.attempt = c.attempt + 1) :
      Polled rules c [.slept wait] c'
  | rests (hover : c.isOver = true) : Polled rules c [] c

theorem polled_advanced {c' : RetryCall α} (hattempt : c.attempt ≤ rules.backoff.retries)
    (htrying : c.isTrying = true) (hsame : c'.attempt = c.attempt) (tx : TxId)
    (progress : Work.Progress α × Service) (t : Tally) :
    Polled rules c ((progress.1.outcome?.map Mark.tried).toList)
      (c'.advanced rules tx progress t).1 := by
  rcases progress with ⟨progress, s⟩
  cases progress with
  | ended outcome =>
      rw [advanced, attemptEnded_eq (hsame ▸ hattempt)]
      exact .ended outcome htrying hsame (by rw [hsame])
  | blocked r next => exact .ongoing htrying rfl hsame
  | pausing millis next => exact .ongoing htrying rfl hsame
  | crashed => exact .crashed htrying hsame rfl

theorem polled_resumeAt (hattempt : c.attempt ≤ rules.backoff.retries) (gait : Work.Gait α)
    (b : Bench) :
    Polled rules c (c.marksAt gait rules b.service) (c.resumeAt gait rules b).1 := by
  rw [resumeAt, marksAt, outcomeAt?]
  cases hphase : c.phase with
  | beginning fault =>
      have htrying : c.isTrying = true := by rw [isTrying, hphase]
      cases fault with
      | some fault =>
          simp only [attemptEnded_eq hattempt]
          exact .ended _ htrying rfl rfl
      | none =>
          have hsame : (⟨c.attempt, c.invoked + 1, .beginning none⟩ : RetryCall α).attempt =
            c.attempt := rfl
          exact polled_advanced hattempt htrying hsame _ _ b.tally
  | blocked tx r next =>
      exact polled_advanced hattempt (by rw [isTrying, hphase]) rfl tx _ b.tally
  | pausing tx millis next =>
      exact polled_advanced hattempt (by rw [isTrying, hphase]) rfl tx _ b.tally
  | sleeping wait => exact .again hphase rfl rfl
  | «over» how => exact .rests (by rw [isOver, hphase])

theorem Polled.of_trying {c' : RetryCall α} {marks : List (Mark α)}
    (h : Polled rules c marks c') (htrying : c.isTrying = true) :
    c'.isOver = true ∨
      c'.attempt = c.attempt ∧ (c'.isTrying = true ∨ ∃ wait, c'.phase = .sleeping wait) := by
  cases h with
  | ended outcome _ hattempt hphase =>
      rw [phaseAfter] at hphase
      split at hphase
      · exact Or.inl (by rw [isOver, hphase])
      · exact Or.inr ⟨hattempt, Or.inr ⟨_, hphase⟩⟩
  | ongoing _ htrying' hattempt => exact Or.inr ⟨hattempt, Or.inl htrying'⟩
  | crashed _ _ hphase => exact Or.inl (by rw [isOver, hphase])
  | again hphase => simp [isTrying, hphase] at htrying
  | rests hover =>
      rw [isOver_of_isTrying htrying] at hover
      simp at hover

theorem Polled.of_sleeping {c' : RetryCall α} {marks : List (Mark α)}
    (h : Polled rules c marks c') {wait : Duration} (hphase : c.phase = .sleeping wait) :
    c'.isTrying = true ∧ c'.attempt = c.attempt + 1 := by
  cases h with
  | ended outcome htrying => simp [isTrying, hphase] at htrying
  | ongoing htrying => simp [isTrying, hphase] at htrying
  | crashed htrying => simp [isTrying, hphase] at htrying
  | again _ htrying hattempt => exact ⟨htrying, hattempt⟩
  | rests hover => simp [isOver, hphase] at hover

end RetryCall

namespace Chronicle

variable {α : Type} {rules : RetryRules α} {scope : Scope} {c : Chronicle α}

/-- Where a call is, and what it has done by then. -/
inductive Stands (rules : RetryRules α) (c : Chronicle α) : Prop where
  | trying {outcomes : List (Except Failure α)} (hundecided : rules.Undecided outcomes)
      (htrying : c.call.isTrying = true) (hattempt : c.call.attempt = outcomes.length)
      (hmarks : c.marks = rules.story outcomes ++ rules.before outcomes.length)
  | sleeping {outcomes : List (Except Failure α)} {last : Except Failure α}
      (hundecided : rules.Undecided (outcomes ++ [last]))
      (hphase : c.call.phase = .sleeping (rules.wait outcomes.length))
      (hattempt : c.call.attempt = outcomes.length)
      (hmarks : c.marks = rules.story (outcomes ++ [last]))
  | returned {outcomes : List (Except Failure α)} {last : Except Failure α}
      (hundecided : rules.Undecided outcomes) (hlast : rules.decides outcomes.length last = true)
      (hphase : c.call.phase = .over (.returned (rules.verdict last)))
      (hattempt : c.call.attempt = outcomes.length)
      (hmarks : c.marks = rules.story (outcomes ++ [last]))
  | crashed {outcomes : List (Except Failure α)} (hundecided : rules.Undecided outcomes)
      (hphase : c.call.phase = .over .crashed) (hattempt : c.call.attempt = outcomes.length)

/-- In every attempt there is still a retry left, or it is the last. -/
theorem attempt_le (h : Stands rules c) : c.call.attempt ≤ rules.backoff.retries := by
  cases h with
  | trying hundecided _ hattempt _ =>
      exact hattempt ▸ RetryRules.length_le_of_undecided hundecided
  | sleeping hundecided _ hattempt _ =>
      have := RetryRules.length_le_of_undecided hundecided
      rw [List.length_append] at this
      omega
  | returned hundecided _ _ hattempt _ =>
      exact hattempt ▸ RetryRules.length_le_of_undecided hundecided
  | crashed hundecided _ hattempt =>
      exact hattempt ▸ RetryRules.length_le_of_undecided hundecided

theorem stands_of_trying (h : Stands rules c) (htrying : c.call.isTrying = true) :
    ∃ outcomes, rules.Undecided outcomes ∧ c.call.attempt = outcomes.length ∧
      c.marks = rules.story outcomes ++ rules.before outcomes.length := by
  cases h with
  | @trying outcomes hundecided _ hattempt hmarks => exact ⟨outcomes, hundecided, hattempt, hmarks⟩
  | sleeping _ hphase _ _ => simp [RetryCall.isTrying, hphase] at htrying
  | returned _ _ hphase _ _ => simp [RetryCall.isTrying, hphase] at htrying
  | crashed _ hphase _ => simp [RetryCall.isTrying, hphase] at htrying

theorem stands_of_sleeping (h : Stands rules c) {wait : Duration}
    (hsleeping : c.call.phase = .sleeping wait) :
    ∃ outcomes last, rules.Undecided (outcomes ++ [last]) ∧ wait = rules.wait outcomes.length ∧
      c.call.attempt = outcomes.length ∧ c.marks = rules.story (outcomes ++ [last]) := by
  cases h with
  | trying _ htrying _ _ => simp [RetryCall.isTrying, hsleeping] at htrying
  | @sleeping outcomes last hundecided hphase hattempt hmarks =>
      rw [hsleeping, CallPhase.sleeping.injEq] at hphase
      exact ⟨outcomes, last, hundecided, hphase, hattempt, hmarks⟩
  | returned _ _ hphase _ _ => simp [hsleeping] at hphase
  | crashed _ hphase _ => simp [hsleeping] at hphase

/-- A call that has returned did so after the first attempt that decides. -/
theorem stands_of_returned (h : Stands rules c) {returned : Except Failure α}
    (hreturned : c.call.phase = .over (.returned returned)) :
    ∃ outcomes last, c.marks = rules.story (outcomes ++ [last]) ∧ rules.Undecided outcomes ∧
      rules.decides outcomes.length last = true ∧ returned = rules.verdict last := by
  cases h with
  | trying _ htrying _ _ => simp [RetryCall.isTrying, hreturned] at htrying
  | sleeping _ hphase _ _ => simp [hreturned] at hphase
  | @returned outcomes last hundecided hlast hphase _ hmarks =>
      rw [hreturned, CallPhase.over.injEq, CallEnd.returned.injEq] at hphase
      exact ⟨outcomes, last, hmarks, hundecided, hlast, hphase⟩
  | crashed _ hphase _ => simp [hreturned] at hphase

theorem stands_of_over (h : Stands rules c) (hover : c.call.isOver = true) :
    (∃ returned, c.call.phase = .over (.returned returned)) ∨ c.call.phase = .over .crashed := by
  cases h with
  | trying _ htrying _ _ =>
      rw [RetryCall.isOver_of_isTrying htrying] at hover
      simp at hover
  | sleeping _ hphase _ _ => simp [RetryCall.isOver, hphase] at hover
  | returned _ _ hphase _ _ => exact Or.inl ⟨_, hphase⟩
  | crashed _ hphase _ => exact Or.inr hphase

/-- A poll adds to what the call has done. -/
theorem stands_polled {call' : RetryCall α} {marks : List (Mark α)} (h : Stands rules c)
    (hpolled : RetryCall.Polled rules c.call marks call') :
    Stands rules ⟨call', c.marks ++ marks⟩ := by
  cases hpolled with
  | ended outcome htrying hsame hphase' =>
      rcases stands_of_trying h htrying with ⟨outcomes, hundecided, hattempt, hmarks⟩
      rw [RetryCall.phaseAfter, hattempt] at hphase'
      have hmarks' : c.marks ++ [.tried outcome] = rules.story (outcomes ++ [outcome]) := by
        rw [hmarks, RetryRules.story_concat]
      cases hlast : rules.decides outcomes.length outcome with
      | true =>
          rw [hlast, if_pos rfl] at hphase'
          exact .returned hundecided hlast hphase' (hsame.trans hattempt) hmarks'
      | false =>
          rw [hlast, if_neg Bool.false_ne_true] at hphase'
          exact .sleeping (RetryRules.undecided_concat hundecided hlast) hphase'
            (hsame.trans hattempt) hmarks'
  | ongoing htrying htrying' hsame =>
      rcases stands_of_trying h htrying with ⟨outcomes, hundecided, hattempt, hmarks⟩
      exact .trying hundecided htrying' (hsame.trans hattempt) ((List.append_nil _).trans hmarks)
  | crashed htrying hsame hphase' =>
      rcases stands_of_trying h htrying with ⟨outcomes, hundecided, hattempt, _⟩
      exact .crashed hundecided hphase' (hsame.trans hattempt)
  | again hphase htrying' hnext =>
      rcases stands_of_sleeping h hphase with
        ⟨outcomes, last, hundecided, rfl, hattempt, hmarks⟩
      have hlength : (outcomes ++ [last]).length = outcomes.length + 1 := List.length_append
      refine .trying hundecided htrying' ?_ ?_
      · rw [hnext, hattempt, hlength]
      · rw [hmarks, hlength, RetryRules.before]
  | rests _ =>
      rw [List.append_nil]
      exact h

theorem polled_step (h : Stands rules c) {p : Poll α} (hquiet : scope.fired? p.now = none) :
    ∃ marks, RetryCall.Polled rules c.call marks (c.step rules scope p).call ∧
      (c.step rules scope p).marks = c.marks ++ marks := by
  have hnotice : scope.notice? p.limitFirst p.now = none := by
    rw [← Option.not_isSome_iff_eq_none, Scope.notice?_isSome, hquiet]
    exact Bool.false_ne_true
  rw [step, hnotice]
  exact ⟨_, RetryCall.polled_resumeAt (attempt_le h) p.gait p.found, rfl⟩

section Run

variable {now : Nat} {b : Bench} {polls : Nat → Poll α} (hstart : scope.fired? now = none)
  (hquiet : ∀ n, scope.fired? (polls n).now = none)
include hstart hquiet

theorem stands_upTo (n : Nat) : Stands rules (upTo rules scope now b polls n) := by
  induction n with
  | zero =>
      refine .trying (RetryRules.undecided_nil rules) ?_ ?_ rfl
      · rw [upTo, hstart]
        rfl
      · rw [upTo, hstart]
        rfl
  | succ n ih =>
      rcases polled_step ih (hquiet n) with ⟨marks, hpolled, hmarks⟩
      have := stands_polled ih hpolled
      rw [← hmarks] at this
      exact this

/-- An attempt that ends is followed by another one, or the call is over. -/
theorem exists_next {n : Nat}
    (htrying : (upTo rules scope now b polls n).call.isTrying = true) (further : Nat)
    (hends : (upTo rules scope now b polls (n + further)).call.isTrying = false) :
    ∃ m, (upTo rules scope now b polls m).call.isOver = true ∨
      (upTo rules scope now b polls m).call.isTrying = true ∧
        (upTo rules scope now b polls m).call.attempt =
          (upTo rules scope now b polls n).call.attempt + 1 := by
  induction further generalizing n with
  | zero =>
      rw [Nat.add_zero, htrying] at hends
      simp at hends
  | succ further ih =>
      rcases polled_step (stands_upTo hstart hquiet n) (hquiet n) with ⟨_, hpolled, _⟩
      rcases hpolled.of_trying htrying with hover | ⟨hattempt, htrying' | ⟨wait, hsleeping⟩⟩
      · exact ⟨n + 1, Or.inl hover⟩
      · rw [Nat.add_comm further, ← Nat.add_assoc] at hends
        rw [← hattempt]
        exact ih (n := n + 1) htrying' hends
      · rcases polled_step (stands_upTo hstart hquiet (n + 1)) (hquiet (n + 1)) with
          ⟨_, hpolled', _⟩
        rw [← hattempt]
        exact ⟨n + 2, Or.inr (hpolled'.of_sleeping hsleeping)⟩

-- The induction is on the retries that are left: each attempt that is followed by another one
-- leaves one fewer, and there is no attempt beyond the last retry.
/-- A call whose attempts end is over in the end. -/
theorem exists_over
    (hends : ∀ n, (upTo rules scope now b polls n).call.isTrying = true →
      ∃ m, n ≤ m ∧ (upTo rules scope now b polls m).call.isTrying = false) :
    ∃ n, (upTo rules scope now b polls n).call.isOver = true := by
  have hfrom : ∀ spare n, (upTo rules scope now b polls n).call.isTrying = true →
      rules.backoff.retries ≤ (upTo rules scope now b polls n).call.attempt + spare →
      ∃ n, (upTo rules scope now b polls n).call.isOver = true := by
    intro spare
    induction spare with
    | zero =>
        intro n htrying hspare
        rcases hends n htrying with ⟨m, hle, hend⟩
        obtain ⟨further, rfl⟩ := Nat.exists_eq_add_of_le hle
        rcases exists_next hstart hquiet htrying further hend with ⟨m, hover | ⟨_, hattempt⟩⟩
        · exact ⟨m, hover⟩
        · have := attempt_le (stands_upTo (b := b) hstart hquiet m : Stands rules _)
          omega
    | succ spare ih =>
        intro n htrying hspare
        rcases hends n htrying with ⟨m, hle, hend⟩
        obtain ⟨further, rfl⟩ := Nat.exists_eq_add_of_le hle
        rcases exists_next hstart hquiet htrying further hend with
          ⟨m, hover | ⟨htrying', hattempt⟩⟩
        · exact ⟨m, hover⟩
        · exact ih m htrying' (by omega)
  refine hfrom rules.backoff.retries 0 ?_ (Nat.le_add_left _ _)
  rw [upTo, hstart]
  rfl

end Run

/-- What a call does and returns while its scope does not fire, whatever the store, the work, the
classification and the backoff are. Its attempts are numbered up to the number of retries, so no
counter is needed that goes further than one more than that. When it has returned, the last attempt
is the first one that decides, the others are in front of it with one wait behind each, and it
returns what follows from the last one. No wait is longer than the cap. A call whose attempts end
and do not crash returns. With the default classification what it returns is never a conflict, so it
decides any attempt of a call around it. -/
theorem retry_loop {rules : RetryRules α} {scope : Scope} {now : Nat} {b : Bench}
    {polls : Nat → Poll α} (hstart : scope.fired? now = none)
    (hquiet : ∀ n, scope.fired? (polls n).now = none) :
    (∀ n, (upTo rules scope now b polls n).call.attempt ≤ rules.backoff.retries) ∧
    (∀ n returned, (upTo rules scope now b polls n).call.phase = .over (.returned returned) →
      ∃ outcomes last, (upTo rules scope now b polls n).marks = rules.story (outcomes ++ [last]) ∧
        (∀ attempt outcome, outcomes[attempt]? = some outcome →
          rules.decides attempt outcome = false) ∧
        rules.decides outcomes.length last = true ∧ returned = rules.verdict last) ∧
    (∀ attempt, (rules.wait attempt).nanos ≤ rules.backoff.cap.nanos) ∧
    ((∀ n, (upTo rules scope now b polls n).call.isTrying = true →
        ∃ m, n ≤ m ∧ (upTo rules scope now b polls m).call.isTrying = false) →
      (∀ n, (upTo rules scope now b polls n).call.phase ≠ .over .crashed) →
      ∃ n returned, (upTo rules scope now b polls n).call.phase = .over (.returned returned)) ∧
    (rules.isConflict = Failure.isConflict → ∀ n e,
      (upTo rules scope now b polls n).call.phase = .over (.returned (.error e)) →
      e.isConflict = false ∧ ∀ (outer : RetryRules α) (attempt : Nat),
        outer.isConflict = Failure.isConflict →
        outer.decides attempt (.error e) = true ∧ outer.verdict (.error e) = .error e) := by
  have hstands : ∀ n, Stands rules (upTo rules scope now b polls n) := stands_upTo hstart hquiet
  refine ⟨fun n => attempt_le (hstands n), fun n returned => stands_of_returned (hstands n),
    fun attempt => Backoff.jittered_le_cap _ _ _, ?_, ?_⟩
  · intro hends hsound
    rcases exists_over hstart hquiet hends with ⟨n, hover⟩
    exact ⟨n, (stands_of_over (hstands n) hover).resolve_right (hsound n)⟩
  · intro hrules n e hreturned
    rcases stands_of_returned (hstands n) hreturned with ⟨_, last, _, _, _, hverdict⟩
    have hnone := RetryRules.isConflict_verdict hrules hverdict.symm
    refine ⟨hnone, fun outer attempt houter => ⟨?_, ?_⟩⟩
    · rw [RetryRules.decides, RetryRules.meetsConflict, houter, hnone]
      rfl
    · rw [RetryRules.verdict, houter, hnone]
      rfl

/-- A body that does nothing, with one retry. -/
def idleRules : RetryRules Unit where
  backoff := { Backoff.default with retries := 1 }
  draw := fun _ => .zero
  isConflict := Failure.isConflict
  body := fun _ => pure ()

/-- Whenever the call looks, the next commit is going to meet a conflict. -/
def contendedPolls : Nat → Poll Unit :=
  fun n => ⟨n, false, Work.run, .ofStore (Store.empty.inject 1)⟩

theorem retry_loop_contended :
    Scope.never.fired? 0 = none ∧ (∀ n, Scope.never.fired? (contendedPolls n).now = none) ∧
    ∃ outcomes last,
      (upTo idleRules .never 0 (.ofStore .empty) contendedPolls 3).marks =
        idleRules.story (outcomes ++ [last]) ∧
      (∀ attempt outcome, outcomes[attempt]? = some outcome →
        idleRules.decides attempt outcome = false) ∧
      idleRules.decides outcomes.length last = true ∧
      .error (.retriesExhausted 2 (.ofStoreFault Refusal.serialization.toFault)) =
        idleRules.verdict last := by
  have hquiet : ∀ n, Scope.never.fired? (contendedPolls n).now = none := fun _ => rfl
  have hphase : (upTo idleRules .never 0 (.ofStore .empty) contendedPolls 3).call.phase =
      .over (.returned (.error (.retriesExhausted 2
        (.ofStoreFault Refusal.serialization.toFault)))) := rfl
  exact ⟨rfl, hquiet, (retry_loop rfl hquiet).2.1 3 _ hphase⟩

end Chronicle

end RowLedger
