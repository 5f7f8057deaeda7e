import RowLedger.Proofs.SecureCrew

/-!
# Callers left to themselves

Callers that cannot fail get all their transfers done, whatever came before.
When a caller stops that is left to itself, it is done or waits for a row, and
its call has just looked at it. If in a round no transfer is done, nobody's
transaction has ended since anybody looked, so nobody has been woken, and then
all who are not done wait for good. But behind every call that waits for good
there is an open transaction that does not, and no transaction is open but
those of the callers. So in each round a transfer is done, or there is none
left.

## Main definitions

* `Caller.Rests`: A caller that is done or waits without having been woken.
* `Crew.left`: The number of transfers that some callers have left.

## Theorems

* `secure_follow`: A schedule keeps the callers secure.
* `secure_goOn`: A caller that is left to itself comes to rest.
* `secure_turns`: So do all of them in a round, or a transfer is done.
* `done_of_rests`: Callers that all rest are all done.
* `secure_finish`: In the end all are done.
-/

namespace RowLedger

variable {scale : Nat} {total : Int} {goal : AccountId → Int}

/-- A caller that is done, or that waits for a row and has not been woken. -/
def Caller.Rests (s : Store) (c : Caller) : Prop :=
  c.todo = [] ∨ ∃ tx w, c.tx? = some tx ∧ s.wait? tx = some w ∧ w.woken = false

theorem Caller.Rests.keep {s s' : Store} {c : Caller} (h : c.Rests s)
    (hlive : ∀ tx, c.tx? = some tx → s'.live.get? tx = s.live.get? tx) : c.Rests s' := by
  rcases h with hdone | ⟨tx, w, htx, hwait, hunwoken⟩
  · exact Or.inl hdone
  · refine Or.inr ⟨tx, w, htx, ?_, hunwoken⟩
    rw [Store.wait?, hlive tx htx]
    exact hwait

theorem Caller.isDone_iff (c : Caller) : c.isDone = true ↔ c.todo = [] := List.isEmpty_iff

namespace Crew

/-- The number of transfers that some callers have left. -/
def left (callers : List Caller) : Nat := (callers.map (·.todo.length)).sum

theorem left_cons (c : Caller) (rest : List Caller) :
    left (c :: rest) = c.todo.length + left rest := by
  rw [left, List.map_cons, List.sum_cons]
  rfl

theorem left_eq_zero_iff {callers : List Caller} :
    left callers = 0 ↔ ∀ c ∈ callers, c.todo = [] := by
  induction callers with
  | nil => simp [left]
  | cons c rest ih =>
      rw [left_cons, Nat.add_eq_zero_iff, List.length_eq_zero_iff, ih, List.forall_mem_cons]

theorem isDone_iff (crew : Crew) : crew.isDone = true ↔ ∀ c ∈ crew.callers, c.todo = [] := by
  rw [isDone, List.all_eq_true]
  exact forall₂_congr fun c _ => c.isDone_iff

theorem transfersLeft_eq (crew : Crew) : crew.transfersLeft = left crew.callers := by
  rw [transfersLeft, left, List.sum_eq_foldl]

section Moves

variable (htotal : total < Decimal.capacity scale)
include htotal

/-- A move of a schedule keeps the callers secure. -/
theorem secure_crewMove {crew : Crew} (h : Secure scale total goal crew.bench crew.callers)
    (backoff : Backoff) (number : Nat) :
    Secure scale total goal (crew.move backoff number).bench
      (crew.move backoff number).callers := by
  rw [Crew.move]
  cases hget : crew.callers[number]? with
  | none => exact h
  | some c =>
      rcases List.getElem?_eq_some_iff.1 hget with ⟨hlt, rfl⟩
      have hfirst := secure_perm h (List.getElem_cons_eraseIdx_perm hlt).symm
      have hmoved := (secure_move htotal (fun tx w s => Work.walks_runAsking 1 tx w s) hfirst
        backoff number).1
      exact secure_perm hmoved (List.set_perm_cons_eraseIdx hlt _).symm

/-- A schedule keeps the callers secure. -/
theorem secure_follow {crew : Crew} (h : Secure scale total goal crew.bench crew.callers)
    (backoff : Backoff) (schedule : List Nat) :
    Secure scale total goal (crew.follow backoff schedule).bench
      (crew.follow backoff schedule).callers := by
  induction schedule generalizing crew with
  | nil => exact h
  | cons number rest ih => exact ih (secure_crewMove htotal h backoff number)

-- A transfer takes two moves at most: one to ask for its transaction, and one that ends in a stop
-- or with the transfer done. So the number of moves that are allowed is never the reason to stop.
/-- A caller that is left to itself comes to rest. Unless it has done a transfer, the others rest
as they did. -/
theorem secure_goOn {b : Bench} {c : Caller} {others : List Caller} {moves : Nat}
    (backoff : Backoff) (number : Nat)
    (h : Secure scale total goal b (c :: others))
    (henough : 2 * c.todo.length ≤ moves + if c.call.isSome then 1 else 0) :
    ∃ c' b', c.goOn backoff number moves b = (c', b') ∧
      Secure scale total goal b' (c' :: others) ∧ c'.Rests b'.service.store ∧
      (c'.todo.length < c.todo.length ∨ (c'.todo.length = c.todo.length ∧
        ∀ d ∈ others, d.Rests b.service.store → d.Rests b'.service.store)) := by
  induction moves generalizing c b with
  | zero =>
      have hdone : c.todo = [] := by
        rw [← List.length_eq_zero_iff]
        split at henough
        · omega
        · omega
      exact ⟨c, b, rfl, h, Or.inl hdone, Or.inr ⟨rfl, fun _ _ hrests => hrests⟩⟩
  | succ moves ih =>
      rw [Caller.goOn]
      cases hdone : c.isDone with
      | true =>
          rw [Caller.isDone_iff] at hdone
          exact ⟨c, b, rfl, h, Or.inl hdone, Or.inr ⟨rfl, fun _ _ hrests => hrests⟩⟩
      | false =>
          have hsome : c.todo ≠ [] := fun hc => by
            rw [← Caller.isDone_iff, hdone] at hc
            simp at hc
          rcases secure_move htotal Work.walks_run h backoff number with ⟨hmoved, hwent⟩
          simp only [Bool.false_eq_true, ↓reduceIte]
          generalize c.move Work.run backoff number b = result at hmoved hwent
          rcases result with ⟨c₁, b₁⟩
          cases hwent with
          | done htodo => exact absurd htodo hsome
          | entered hcall hcall' htodo hblocked hstore =>
              have henough' : 2 * c₁.todo.length ≤
                  moves + if c₁.call.isSome then 1 else 0 := by
                rw [if_pos hcall', htodo]
                rw [if_neg (by simp [hcall])] at henough
                exact henough
              rcases ih hmoved henough' with ⟨c', b', hgo, hsecure, hrests, hrank⟩
              rw [htodo, hstore] at hrank
              simp only [hblocked, Bool.false_eq_true, ↓reduceIte]
              exact ⟨c', b', hgo, hsecure, hrests, hrank⟩
          | @stopped _ _ tx r next w s htx hrun htodo hblocked hleft =>
              simp only [hblocked, ↓reduceIte]
              rcases Work.run_blocked hrun with ⟨wait, hwait, hunwoken⟩
              refine ⟨c₁, b₁, rfl, hmoved, Or.inr ⟨tx, wait, htx, hwait, hunwoken⟩,
                Or.inr ⟨by rw [htodo], fun d hd hrests => hrests.keep fun other hother => ?_⟩⟩
              refine hleft.live other ?_
              rintro rfl
              exact (distinct_others hmoved.distinct).2 other htx
                (List.mem_filterMap.2 ⟨d, hd, hother⟩)
          | finished hcall hcall' htodo =>
              have hblocked : c₁.isBlocked = false := by
                rw [Caller.isBlocked, hcall']
              have henough' : 2 * c₁.todo.length ≤
                  moves + if c₁.call.isSome then 1 else 0 := by
                rw [if_pos hcall, htodo, List.length_cons] at henough
                change 2 * (c₁.todo.length + 1) ≤ moves + 1 + 1 at henough
                omega
              rcases ih hmoved henough' with ⟨c', b', hgo, hsecure, hrests, hrank⟩
              simp only [hblocked, Bool.false_eq_true, ↓reduceIte]
              refine ⟨c', b', hgo, hsecure, hrests, Or.inl ?_⟩
              rw [htodo, List.length_cons]
              omega

-- Induction on the callers whose turn is yet to come, with those in front of them who have had
-- theirs.
/-- In a round all callers come to rest, unless a transfer is done. -/
theorem secure_turns {b : Bench} {rest : List Caller} (backoff : Backoff) (number : Nat)
    (before : List Caller)
    (h : Secure scale total goal b (before ++ rest)) :
    ∃ rest' b', turns backoff number rest b = (rest', b') ∧
      Secure scale total goal b' (before ++ rest') ∧
      (left rest' < left rest ∨ (left rest' = left rest ∧
        (∀ d ∈ before, d.Rests b.service.store → d.Rests b'.service.store) ∧
        ∀ d ∈ rest', d.Rests b'.service.store)) := by
  induction rest generalizing before number b with
  | nil => exact ⟨[], b, rfl, h, Or.inr ⟨rfl, fun _ _ hrests => hrests, by simp⟩⟩
  | cons c rest ih =>
      have henough : 2 * c.todo.length ≤
          c.maxMoves backoff + if c.call.isSome then 1 else 0 := by
        have hmul : c.todo.length * 2 ≤ c.maxMoves backoff :=
          Nat.mul_le_mul_left _ (Nat.le_add_left 2 _)
        omega
      rcases secure_goOn htotal backoff number
        (secure_perm h List.perm_middle) henough with ⟨c', b₁, hgo, hsecure, hrests, hrank⟩
      have hnext : Secure scale total goal b₁ (before ++ [c'] ++ rest) := by
        rw [List.append_assoc]
        exact secure_perm hsecure List.perm_middle.symm
      rcases ih (number + 1) _ hnext with ⟨rest', b', hturns, hsecure', hrank'⟩
      refine ⟨c' :: rest', b', ?_, ?_, ?_⟩
      · simp only [turns, hgo, hturns]
      · rw [List.append_assoc] at hsecure'
        exact hsecure'
      · rw [left_cons, left_cons]
        rcases hrank with hless | ⟨hsame, hothers⟩
        · refine Or.inl ?_
          rcases hrank' with hless' | ⟨hsame', _⟩
          · omega
          · omega
        · rcases hrank' with hless' | ⟨hsame', hbefore, hrest'⟩
          · exact Or.inl (by omega)
          · refine Or.inr ⟨by omega, ?_, ?_⟩
            · intro d hd hrestsd
              exact hbefore d (List.mem_append_left _ hd)
                (hothers d (List.mem_append_left _ hd) hrestsd)
            · intro d hd
              rcases List.mem_cons.1 hd with rfl | hd
              · exact hbefore d (List.mem_append_right _ List.mem_cons_self) hrests
              · exact hrest' d hd

end Moves

-- Nobody is woken, so everybody who waits does so for good, and then somebody would have to be open
-- who does not wait. That could only be one of the callers.
/-- Callers that all rest are all done. -/
theorem done_of_rests {b : Bench} {callers : List Caller}
    (h : Secure scale total goal b callers)
    (hrests : ∀ c ∈ callers, c.Rests b.service.store) : ∀ c ∈ callers, c.todo = [] := by
  have hwaits : ∀ tx, (b.service.store.live.get? tx).isSome = true →
      ∃ w, b.service.store.wait? tx = some w ∧ w.woken = false := by
    intro tx hopen
    rcases List.mem_filterMap.1 (h.owned tx hopen) with ⟨d, hd, htx⟩
    rcases hrests d hd with hdone | ⟨tx', w, htx', hwait, hunwoken⟩
    · rw [Caller.tx?, (h.stands d hd).call_of_done hdone] at htx
      simp at htx
    · rw [htx, Option.some.injEq] at htx'
      exact ⟨w, htx' ▸ hwait, hunwoken⟩
  have hsettled : b.service.store.Settled := by
    refine Store.settled_of_unwoken fun tx r hwait => ?_
    rcases Store.wait?_eq_some_iff.1 hwait with ⟨t, hlive, _⟩
    rcases hwaits tx (by rw [hlive]; rfl) with ⟨w, hw, hunwoken⟩
    rw [hwait, Option.some.injEq] at hw
    rw [← hw] at hunwoken
    simp at hunwoken
  intro c hc
  rcases hrests c hc with hdone | ⟨tx, w, _, hwait, _⟩
  · exact hdone
  · rcases Store.wait?_eq_some_iff.1 hwait with ⟨t, hlive, _⟩
    have hopen : b.service.store.isOpen tx = true := by
      rw [Store.isOpen, Table.contains, hlive]
      rfl
    rcases Store.exists_runner h.consistent h.acyclic hsettled hopen with
      ⟨last, _, hopen', hfree⟩
    rcases hwaits last hopen' with ⟨w', hw', _⟩
    rw [Store.isBlocked, hw'] at hfree
    simp at hfree

section Finish

variable (htotal : total < Decimal.capacity scale)
include htotal

/-- As many rounds as there are transfers left are enough. -/
theorem secure_rounds {crew : Crew} {count : Nat} (backoff : Backoff)
    (h : Secure scale total goal crew.bench crew.callers) (hcount : left crew.callers ≤ count) :
    Secure scale total goal (rounds backoff count crew).bench (rounds backoff count crew).callers ∧
      ∀ c ∈ (rounds backoff count crew).callers, c.todo = [] := by
  induction count generalizing crew with
  | zero => exact ⟨h, left_eq_zero_iff.1 (Nat.le_zero.1 hcount)⟩
  | succ count ih =>
      rw [rounds]
      cases hdone : crew.isDone with
      | true => exact ⟨h, (isDone_iff crew).1 hdone⟩
      | false =>
          rcases secure_turns htotal backoff 0 [] h with
            ⟨callers, bench, hturns, hsecure, hrank⟩
          rw [List.nil_append] at hsecure
          simp only [Bool.false_eq_true, ↓reduceIte, hturns]
          refine ih hsecure ?_
          rcases hrank with hless | ⟨_, _, hrests⟩
          · exact Nat.le_of_lt_succ (Nat.lt_of_lt_of_le hless hcount)
          · exact (left_eq_zero_iff.2 (done_of_rests hsecure hrests)).trans_le (Nat.zero_le count)

/-- In the end all callers are done. -/
theorem secure_finish {crew : Crew} (h : Secure scale total goal crew.bench crew.callers)
    (backoff : Backoff) :
    Secure scale total goal (crew.finish backoff).bench (crew.finish backoff).callers ∧
      ∀ c ∈ (crew.finish backoff).callers, c.todo = [] := by
  rw [finish, transfersLeft_eq]
  exact secure_rounds htotal backoff h (Nat.le_refl _)

end Finish

section Done

variable {b : Bench} {callers : List Caller} (h : Secure scale total goal b callers)
include h

/-- No transfer has failed. -/
theorem failures_of_secure : Crew.failures ⟨b, callers⟩ = 0 := by
  have hzero : ∀ n ∈ callers.map (·.failures), n = 0 := by
    intro n hn
    rcases List.mem_map.1 hn with ⟨c, hc, rfl⟩
    exact (h.stands c hc).failures
  rw [failures, ← List.sum_eq_foldl]
  exact List.sum_eq_zero hzero

variable (hdone : ∀ c ∈ callers, c.todo = [])
include hdone

/-- Callers that are done have moved what they were to move. -/
theorem units_of_done (id : AccountId) : unitsOf b.service.store.accounts id = goal id := by
  have hnone : ∀ side, outstanding side callers id = 0 := by
    intro side
    refine List.sum_eq_zero fun x hx => ?_
    rcases List.mem_map.1 hx with ⟨c, hc, rfl⟩
    rw [hdone c hc]
    rfl
  rw [← h.goal id, hnone, hnone, Int.sub_self, Int.add_zero]

/-- No transaction is left open. -/
theorem nobody_of_done (tx : TxId) : b.service.store.live.get? tx = none := by
  rw [← Option.not_isSome_iff_eq_none]
  intro hlive
  rcases List.mem_filterMap.1 (h.owned tx hlive) with ⟨c, hc, htx⟩
  rw [Caller.tx?, (h.stands c hc).call_of_done (hdone c hc)] at htx
  simp at htx

end Done

end Crew

end RowLedger
