import RowLedger.Proofs.DeadlockFreedom

/-!
# Work on its way

A unit of work that is run for a while and then stands somewhere, whatever the
gait: a run to the next wait and a run to the next request are both a walk, and
so is a single step (`Work.Walks`). On its way the work does nothing to the
store but what is about its own transaction, so what is known of others and
their work stays known, and it meets its contract from the stage on that it has
reached (`Work.Under`).

There are two ways in which a contract can be right about conflicts. Either it
expects them, or there are none: no conflict is due, and all waits point
upwards and will go on to do so (`Store.Suits`).

## Main definitions

* `Progress.work`: What is left of work that stands somewhere.
* `Work.Walks`: Work goes on for a number of steps.
* `Work.Under`: Work that is under way in its transaction.
* `Store.Suits`: A store that a contract speaks of.

## Theorems

* `walks_run`, `walks_runAsking`: Work that runs walks.
* `walks_settle`: Work walks to its end before anything else begins.
* `under_start`: Work begins in a fresh transaction.
* `under_step`, `under_walk`: Work that walks keeps its contract.
* `under_others`: The others leave it alone.
-/

namespace RowLedger

namespace Event

variable {tx other : TxId} {e : Event} (h : e = .start ∨ e.tx? = some tx)
include h

/-- What happens on behalf of a transaction is about no other one. -/
theorem tx?_ne_of_mine (hne : other ≠ tx) : e.tx? ≠ some other := by
  rcases h with rfl | htx
  · simp [tx?]
  · rw [htx, ne_eq, Option.some.injEq]
    exact hne.symm

/-- A transaction puts in no accounts. -/
theorem ne_insert_of_mine (id : AccountId) (balance : Decimal) : e ≠ .insert id balance := by
  rintro rfl
  rcases h with hstart | htx
  · simp at hstart
  · simp [tx?] at htx

/-- A transaction makes no conflicts. -/
theorem ne_inject_of_mine (conflicts : Nat) : e ≠ .inject conflicts := by
  rintro rfl
  rcases h with hstart | htx
  · simp at hstart
  · simp [tx?] at htx

end Event

namespace Work

variable {α β : Type} {tx : TxId}

/-- What is left of work that stands somewhere. -/
def Progress.work : Progress α → Work α
  | .ended outcome => .done outcome
  | .blocked r next => .request r next
  | .pausing millis next => .pause millis next
  | .crashed => .crash

/-- Work goes on for a number of steps. -/
inductive Walks (tx : TxId) : Work α → Service → Work α → Service → Prop where
  | stays (w : Work α) (s : Service) : Walks tx w s w s
  | goes {w w' : Work α} {s s' : Service}
      (h : Walks tx (w.step tx s).1 (w.step tx s).2 w' s') : Walks tx w s w' s'

section Gaits

/-- One step, and nothing more, if the work has to wait. -/
theorem walks_waiting {r : Request} {next : Except StoreFault Decimal → Work α} {s s' : Service}
    (h : s.request tx r = (none, s')) : Walks tx (.request r next) s (.request r next) s' := by
  refine .goes ?_
  rw [step, h]
  exact .stays _ _

theorem walks_answered {r : Request} {next : Except StoreFault Decimal → Work α} {w' : Work α}
    {s s' s'' : Service} {answer : Except StoreFault Decimal}
    (h : s.request tx r = (some answer, s')) (hrest : Walks tx (next answer) s' w' s'') :
    Walks tx (.request r next) s w' s'' := by
  refine .goes ?_
  rw [step, h]
  exact hrest

theorem walks_run (tx : TxId) (w : Work α) (s : Service) :
    Walks tx w s (w.run tx s).1.work (w.run tx s).2 := by
  induction w generalizing s with
  | done outcome => exact .stays _ _
  | request r next ih =>
      rw [run]
      cases h : s.request tx r with
      | mk answer s' =>
          cases answer with
          | none => exact walks_waiting h
          | some answer => exact walks_answered h (ih answer s')
  | commit next ih => exact .goes (ih _ _)
  | rollback next ih => exact .goes (ih _ _)
  | pause millis next => exact .stays _ _
  | tell notice next ih => exact .goes (ih _)
  | note n next ih => exact .goes (ih _)
  | crash => exact .stays _ _

/-- Work that walks plans no faults. -/
theorem plan_walk {w w' : Work α} {s s' : Service} (hwalks : Walks tx w s w' s')
    (hplan : s.plan = .empty) : s'.plan = .empty := by
  induction hwalks with
  | stays => exact hplan
  | goes _ ih => exact ih (step_plan hplan _)

theorem walks_runAsking (requests : Nat) (tx : TxId) (w : Work α) (s : Service) :
    Walks tx w s (w.runAsking requests tx s).1.work (w.runAsking requests tx s).2 := by
  induction w generalizing s requests with
  | done outcome =>
      rw [runAsking]
      exact .stays _ _
  | request r next ih =>
      cases requests with
      | zero =>
          rw [runAsking]
          exact .stays _ _
      | succ requests =>
          rw [runAsking]
          cases h : s.request tx r with
          | mk answer s' =>
              cases answer with
              | none => exact walks_waiting h
              | some answer => exact walks_answered h (ih answer requests s')
  | commit next ih =>
      rw [runAsking]
      exact .goes (ih _ _ _)
  | rollback next ih =>
      rw [runAsking]
      exact .goes (ih _ _ _)
  | pause millis next =>
      rw [runAsking]
      exact .stays _ _
  | tell notice next ih =>
      rw [runAsking]
      exact .goes (ih _ _)
  | note n next ih =>
      rw [runAsking]
      exact .goes (ih _ _)
  | crash =>
      rw [runAsking]
      exact .stays _ _

/-- Work that has ended walks nowhere. -/
theorem walks_done {outcome : Except Failure α} {w' : Work α} {s s' : Service}
    (h : Walks tx (.done outcome) s w' s') : w' = .done outcome ∧ s' = s := by
  generalize hw : Work.done outcome = w at h
  induction h with
  | stays => exact ⟨rfl, rfl⟩
  | goes _ ih =>
      subst hw
      exact ih rfl

/-- What comes afterwards does not matter to work that has not ended. -/
theorem step_settle (tx : TxId) {w : Work α} (hw : ∀ outcome, w ≠ .done outcome)
    (f : Except Failure α → Work β) (s : Service) :
    (w.settle f).step tx s = ((w.step tx s).1.settle f, (w.step tx s).2) := by
  cases w with
  | done outcome => exact absurd rfl (hw outcome)
  | request r next =>
      rw [settle, step, step]
      cases s.request tx r with
      | mk answer s' =>
          cases answer with
          | none => rfl
          | some answer => rfl
  | _ => rfl

-- The work of the walk is the first part with the rest behind it, as long as that part goes on.
/-- Work walks to its end before anything else begins. -/
theorem walks_settle {w : Work α} {f : Except Failure α → Work β} {w' : Work β} {s s' : Service}
    (h : Walks tx (w.settle f) s w' s') :
    (∃ v, w' = v.settle f ∧ Walks tx w s v s') ∨
      ∃ outcome s₁, Walks tx w s (.done outcome) s₁ ∧ Walks tx (f outcome) s₁ w' s' := by
  generalize hv : w.settle f = v at h
  induction h generalizing w with
  | stays => exact Or.inl ⟨w, hv.symm, .stays _ _⟩
  | @goes v w' s s' h ih =>
      by_cases hw : ∃ outcome, w = .done outcome
      · rcases hw with ⟨outcome, rfl⟩
        subst hv
        exact Or.inr ⟨outcome, s, .stays _ _, .goes h⟩
      · have hstep := step_settle tx (fun outcome heq => hw ⟨outcome, heq⟩) f s
        rw [hv] at hstep
        rcases ih (w := (w.step tx s).1) (by rw [hstep]) with
          ⟨u, hu, hwalk⟩ | ⟨outcome, s₁, hend, hrest⟩
        · rw [hstep] at hwalk
          exact Or.inl ⟨u, hu, .goes hwalk⟩
        · rw [hstep] at hend
          exact Or.inr ⟨outcome, s₁, .goes hend, hrest⟩

/-- Work that walks stays where it is or takes its first step. -/
theorem walks_cases {w w' : Work α} {s s' : Service} (h : Walks tx w s w' s') :
    (w' = w ∧ s' = s) ∨ Walks tx (w.step tx s).1 (w.step tx s).2 w' s' := by
  cases h with
  | stays => exact Or.inl ⟨rfl, rfl⟩
  | goes h => exact Or.inr h

end Gaits

end Work

/-- A store that a contract speaks of. If the contract knows of no victims, nobody is going to be
one: all waits point upwards, and requests that the contract allows keep it so. -/
structure Store.Suits (s : Store) (c : Contract) : Prop where
  consistent : s.Consistent
  accounts : c.accounts s.accounts
  up : c.victims ∨ s.WaitsUp ∧ ∀ t r, c.asks t r → RowAbove t.held r.row
  due : c.conflicts ∨ s.conflictsDue = 0

namespace Work

variable {α : Type} {c : Contract} {tx : TxId} {post : Except Failure α → Stage → Prop}

/-- Work that is under way in its transaction. -/
structure Under (c : Contract) (s : Store) (tx : TxId) (w : Work α) (stage : Stage)
    (post : Except Failure α → Stage → Prop) : Prop where
  stands : s.AtStage c tx stage
  meets : w.Meets c stage post
  begun : tx ≤ s.begun
  /-- A transaction that waits does so for the request at which its work stands. -/
  standing : ∀ wait, s.wait? tx = some wait → ∃ next, w = .request wait.request next

section Steps

variable {s : Service} {w w' : Work α} {stage : Stage}

/-- Work that the contract is right about asks in order. -/
theorem inOrder_of_under (h : Under c s.store tx w stage post) {e : Event}
    (hup : ∀ t r, c.asks t r → RowAbove t.held r.row) (htx : e.tx? = some tx)
    (hasks : ∀ other r, e = .call other (.request r) → ∃ next, w = .request r next) :
    s.store.InOrder e := by
  cases e with
  | call other call =>
      rw [Event.tx?, Option.some.injEq] at htx
      cases call with
      | request r =>
          rcases hasks other r rfl with ⟨next, rfl⟩
          intro t hlive _
          rw [htx] at hlive
          cases h.stands with
          | @running o seen hlive' =>
              rw [hlive, Option.some.injEq] at hlive'
              exact hlive' ▸ hup o.idle r h.meets.1
          | ended change hended =>
              rw [hlive] at hended
              simp at hended
      | _ => trivial
  | _ => trivial

/-- A request of such work meets a conflict only if the contract speaks of victims. -/
theorem victims_of_under (hsuits : s.store.Suits c) (h : Under c s.store tx w stage post)
    {r : Request} {next : Except StoreFault Decimal → Work α} {reason : Refusal}
    (hw : w = .request r next) (hask : (s.store.ask tx r).1 = .refused reason)
    (hconflict : reason.isConflict = true) : c.victims := by
  refine hsuits.up.resolve_right ?_
  rintro ⟨hup, hasks⟩
  have hstands := stands_of_standing h.standing hw
  rcases Store.deadlock_of_ask hsuits.consistent hstands hask hconflict with ⟨holder, rfl⟩
  rcases Store.ask_step h.begun hstands with ⟨e, he, _, hanswer⟩
  have horder : s.store.InOrder e := by
    refine inOrder_of_under h hasks ?_ ?_
    · rcases he with rfl | rfl
      · rfl
      · rfl
    · intro other r' hr'
      rcases he with rfl | rfl
      · simp at hr'
      · rw [Event.call.injEq, Call.request.injEq] at hr'
        exact ⟨next, hr'.2 ▸ hw⟩
  rcases hanswer with hwait | hanswer
  · rw [hask] at hwait
    simp at hwait
  · have := Store.no_victim_step hsuits.consistent hup horder hanswer tx r.row holder
    rw [hask] at this
    exact absurd rfl this

/-- What becomes of a store and of work in it, as long as nobody else does anything. -/
structure Reached (c : Contract) (s : Service) (tx : TxId) (stage : Stage)
    (post : Except Failure α → Stage → Prop) (w' : Work α) (s' : Service) : Prop where
  plan : s'.plan = .empty
  suits : s'.store.Suits c
  under : ∃ stage', Under c s'.store tx w' stage' post ∧ Follows s.store s'.store stage stage'
  events : ∃ events, s'.store = s.store.after events ∧ ∀ e ∈ events, e.tx? = some tx

theorem under_step (hplan : s.plan = .empty) (hsuits : s.store.Suits c)
    (h : Under c s.store tx w stage post) :
    Reached c s tx stage post (w.step tx s).1 (w.step tx s).2 := by
  have hmoved : w.Moved tx s.store ((w.step tx s).1, (w.step tx s).2.store) := moved hplan w
  have hplan' : (w.step tx s).2.plan = .empty := step_plan hplan w
  generalize w.step tx s = result at hmoved hplan'
  rcases result with ⟨w', s'⟩
  have hevent := moved_event h.standing h.begun hmoved
  rcases meets_moved hsuits.consistent hsuits.accounts h.stands h.meets
    (fun r next hw => stands_of_standing h.standing hw)
    (fun r next reason hw => victims_of_under hsuits h hw)
    (fun hdue => hsuits.due.resolve_right hdue) hmoved with
    ⟨stage', hstands, hmeets, haccounts, hfollows⟩
  have hstanding := fun wait => standing_of_moved (w := wait) h.standing hsuits.consistent hmoved
  rcases hevent with hsame | ⟨e, hstep, htx, hasks⟩
  · refine ⟨hplan', ?_, ⟨stage', ⟨hstands, hmeets, ?_, hstanding⟩, hfollows⟩, [], hsame, by simp⟩
    · exact hsame ▸ hsuits
    · exact hsame ▸ h.begun
  · have hconsistent := Store.consistent_step hsuits.consistent e
    refine ⟨hplan', ⟨hstep ▸ hconsistent, haccounts, ?_, ?_⟩,
      ⟨stage', ⟨hstands, hmeets, ?_, hstanding⟩, hfollows⟩, [e], hstep, ?_⟩
    · rcases hsuits.up with hvictims | ⟨hup, hrows⟩
      · exact Or.inl hvictims
      · refine Or.inr ⟨?_, hrows⟩
        rw [hstep]
        exact Store.waitsUp_step hsuits.consistent hup (inOrder_of_under h hrows htx hasks)
    · rcases hsuits.due with hconflicts | hdue
      · exact Or.inl hconflicts
      · refine Or.inr ?_
        rw [hstep]
        exact Store.conflictsDue_step (Event.ne_inject_of_mine (Or.inr htx)) hdue
    · rw [hstep]
      exact Nat.le_trans h.begun (Store.begun_step_le s.store e)
    · intro e' he'
      rw [List.mem_singleton.1 he']
      exact htx

/-- One after another, what was done to the accounts is known. -/
theorem follows_trans {s s' s'' : Store} {stage stage' stage'' : Stage}
    (h : Follows s s' stage stage') (h' : Follows s' s'' stage' stage'') :
    Follows s s'' stage stage'' := by
  rcases h with ⟨hsame, hchange⟩ | ⟨hnone, hchange⟩
  · rcases h' with ⟨hsame', hchange'⟩ | ⟨hnone', hchange'⟩
    · exact Or.inl ⟨hsame'.trans hsame, hchange'.trans hchange⟩
    · exact Or.inr ⟨hchange ▸ hnone', hsame ▸ hchange'⟩
  · rcases h' with ⟨hsame', hchange'⟩ | ⟨hnone', _⟩
    · refine Or.inr ⟨hnone, ?_⟩
      rw [hchange', hchange, hsame']
    -- There is one commit at most.
    · rw [hnone'] at hchange
      simp at hchange

/-- Work that walks keeps its contract. -/
theorem under_walk {s' : Service} (hwalks : Walks tx w s w' s') (hplan : s.plan = .empty)
    (hsuits : s.store.Suits c) (h : Under c s.store tx w stage post) :
    Reached c s tx stage post w' s' := by
  induction hwalks generalizing stage with
  | stays w s => exact ⟨hplan, hsuits, ⟨stage, h, Or.inl ⟨rfl, rfl⟩⟩, [], rfl, by simp⟩
  | @goes w w' s s' _ ih =>
      rcases under_step hplan hsuits h with
        ⟨hplan₁, hsuits₁, ⟨stage₁, hunder₁, hfollows₁⟩, first, hfirst, htx⟩
      rcases ih hplan₁ hsuits₁ hunder₁ with
        ⟨hplan', hsuits', ⟨stage', hunder', hfollows'⟩, rest, hrest, htx'⟩
      refine ⟨hplan', hsuits', ⟨stage', hunder', follows_trans hfollows₁ hfollows'⟩,
        first ++ rest, ?_, ?_⟩
      · rw [Store.after_append, ← hfirst, hrest]
      · intro e he
        rcases List.mem_append.1 he with he | he
        · exact htx e he
        · exact htx' e he

end Steps

/-- Work that begins in a transaction of its own is under way. -/
theorem under_start {s : Service} {w : Work α} (hsuits : s.store.Suits c)
    (hmeets : w.Meets c (.running .fresh s.store.accounts) post) :
    s.start.2.store.Suits c ∧
      Under c s.start.2.store s.start.1 w (.running .fresh s.store.accounts) post := by
  have hstep : s.start.2.store = (s.store.step .start).2 := rfl
  have hlive : s.start.2.store.live.get? s.start.1 = some .fresh :=
    (Store.live_start s.store _).trans (if_pos rfl)
  refine ⟨⟨?_, hsuits.accounts, ?_, ?_⟩, ⟨?_, hmeets, Nat.le_refl _, ?_⟩⟩
  · rw [hstep]
    exact Store.consistent_step hsuits.consistent .start
  · rcases hsuits.up with hvictims | ⟨hup, hrows⟩
    · exact Or.inl hvictims
    · refine Or.inr ⟨?_, hrows⟩
      rw [hstep]
      exact Store.waitsUp_step hsuits.consistent hup (e := .start) trivial
  · exact hsuits.due
  · exact Store.AtStage.running (o := .fresh) s.store.accounts hlive (by simp [OpenTx.fresh])
  · intro wait hwait
    rw [Store.wait?, hlive] at hwait
    simp [OpenTx.fresh] at hwait

/-- The others leave work that is under way alone. -/
theorem under_others {s : Store} {w : Work α} {stage : Stage} {events : List Event}
    (hconsistent : s.Consistent) (h : Under c s tx w stage post)
    (hothers : ∀ e ∈ events, e.tx? ≠ some tx ∧ ∀ id balance, e ≠ .insert id balance) :
    Under c (s.after events) tx w stage post := by
  induction events generalizing s with
  | nil => exact h
  | cons e rest ih =>
      rcases hothers e List.mem_cons_self with ⟨hne, hins⟩
      refine ih (Store.consistent_step hconsistent e) ?_
        fun e' he' => hothers e' (List.mem_cons_of_mem _ he')
      refine ⟨Store.atStage_step_other hconsistent h.stands h.begun hne fun _ => hins, h.meets,
        Nat.le_trans h.begun (Store.begun_step_le s e), ?_⟩
      intro wait hwait
      rcases Store.wait?_step_other h.begun hne hwait with ⟨wait₀, hwait₀, hrequest⟩
      exact hrequest ▸ h.standing wait₀ hwait₀

end Work

end RowLedger
