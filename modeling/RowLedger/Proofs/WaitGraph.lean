import Mathlib.Data.Finset.Card
import Mathlib.Data.Nat.Find
import Mathlib.Logic.Relation
import RowLedger.Store.Locks

/-!
# The wait graph

The waits as a graph on transactions, with an edge from each transaction that
waits to the holder of the row it waits for. A transaction has at most one way
to go on, so the graph is a partial function and following it is a walk.

The bounded walk of `RowLocks.leadsTo` misses nothing. A shortest walk to a
transaction visits none twice, and all it visits before the end wait for
something, so it has no more steps than there are waits (`walk_short`). With
one visit more than that the target itself is seen, too.

What happens to the locks keeps the graph free of cycles. Taking edges away is
harmless. A row that is taken gets its holder new edges, from those who had
marked it before, but the holder has just lost its own. And the edge of a new
wait goes to a transaction from which the one who waits is not reached, which
is what the walk has made sure of.

## Main definitions

* `RowLocks.Ahead`: One transaction waits for another.
* `RowLocks.walk`: Where a number of steps leads.
* `RowLocks.Acyclic`: No transaction waits for itself, directly or through
  others.

## Theorems

* `reaches_iff_walk`: To be reached is to be walked to.
* `leadsTo_iff_walk`: The bounded walk sees what is met within its bound.
* `walk_short`: What is reached at all is reached early.
* `wouldDeadlock_iff`: The cycle check is exact.
* `cycle_check_exact`: The same on any locks and waits, and for longer walks.
* `acyclic_of_subset`, `acyclic_take`, `acyclic_startWaiting`: What keeps the
  graph free of cycles.
* `exists_end`: From everywhere the graph leads to somebody who does not wait.
-/

namespace RowLedger

open Relation

namespace RowLocks

/-- One transaction waits for a row that another one holds. -/
def Ahead (l : RowLocks) (tx next : TxId) : Prop := l.ahead? tx = some next

/-- No transaction waits for itself, directly or through others. -/
def Acyclic (l : RowLocks) : Prop := ∀ tx, ¬ TransGen l.Ahead tx tx

/-- Where a number of steps leads. -/
def walk (l : RowLocks) : Nat → TxId → Option TxId
  | 0, tx => some tx
  | steps + 1, tx => (l.walk steps tx).bind l.ahead?

theorem walk_add (l : RowLocks) (m n : Nat) (tx : TxId) :
    l.walk (m + n) tx = (l.walk m tx).bind (l.walk n) := by
  induction n with
  | zero => simp [walk]
  | succ k ih =>
      rw [← Nat.add_assoc, walk, ih, Option.bind_assoc]
      rfl

theorem walk_succ' (l : RowLocks) (steps : Nat) (tx : TxId) :
    l.walk (steps + 1) tx = (l.ahead? tx).bind (l.walk steps) := by
  rw [Nat.add_comm, walk_add]
  rfl

-- Both directions go along the end of the path, since that is where a walk gets its next step.
theorem reaches_iff_walk (l : RowLocks) (tx target : TxId) :
    ReflTransGen l.Ahead tx target ↔ ∃ steps, l.walk steps tx = some target := by
  constructor
  · intro h
    induction h with
    | refl => exact ⟨0, rfl⟩
    | tail _ hstep ih =>
        rcases ih with ⟨steps, hsteps⟩
        exact ⟨steps + 1, by rw [walk, hsteps]; exact hstep⟩
  · rintro ⟨steps, h⟩
    induction steps generalizing target with
    | zero =>
        rw [walk, Option.some.injEq] at h
        exact h ▸ ReflTransGen.refl
    | succ k ih =>
        rw [walk, Option.bind_eq_some_iff] at h
        rcases h with ⟨middle, hmiddle, hstep⟩
        exact (ih middle hmiddle).tail hstep

-- The bounded walk looks at where it is before it goes on. So the walk is taken apart at its first
-- step here, and the induction is on the visits that are left.
theorem leadsTo_iff_walk (l : RowLocks) (target : TxId) (visits : Nat) (tx : TxId) :
    l.leadsTo target visits tx = true ↔ ∃ steps < visits, l.walk steps tx = some target := by
  induction visits generalizing tx with
  | zero => simp [leadsTo]
  | succ k ih =>
      by_cases htx : tx = target
      · simp only [leadsTo, if_pos htx, true_iff]
        exact ⟨0, Nat.succ_pos k, by rw [walk, htx]⟩
      · rw [leadsTo, if_neg htx]
        cases hnext : l.ahead? tx with
        | none =>
            refine iff_of_false (by simp) ?_
            rintro ⟨steps, _, h⟩
            cases steps with
            | zero => exact htx (Option.some.inj h)
            | succ j => simp [walk_succ', hnext] at h
        | some next =>
            simp only [ih]
            constructor
            · rintro ⟨steps, hlt, h⟩
              exact ⟨steps + 1, by omega, by rw [walk_succ', hnext]; exact h⟩
            · rintro ⟨steps, hlt, h⟩
              cases steps with
              | zero => exact absurd (Option.some.inj h) htx
              | succ j =>
                  rw [walk_succ', hnext] at h
                  exact ⟨j, by omega, h⟩

/-- A transaction from which the walk goes on has a wait. -/
theorem mem_waits_of_walk {l : RowLocks} {j k : Nat} {tx target : TxId} (hj : j < k)
    (h : l.walk k tx = some target) : ∃ middle ∈ l.waits.keys, l.walk j tx = some middle := by
  rw [show k = j + 1 + (k - (j + 1)) by omega, walk_add, Option.bind_eq_some_iff] at h
  rcases h with ⟨after, hafter, _⟩
  rw [walk, Option.bind_eq_some_iff] at hafter
  rcases hafter with ⟨middle, hmiddle, hstep⟩
  rcases (ahead?_eq_some_iff l middle after).1 hstep with ⟨row, hrow, _⟩
  exact ⟨middle, (l.waits.mem_keys_iff middle).2 (by rw [hrow]; rfl), hmiddle⟩

/-- What is reached at all is reached within as many steps as there are waits. -/
theorem walk_short {l : RowLocks} {k : Nat} {tx target : TxId}
    (h : l.walk k tx = some target) : ∃ j ≤ l.waits.size, l.walk j tx = some target := by
  classical
  have hex : ∃ n, l.walk n tx = some target := ⟨k, h⟩
  -- A shortest walk visits no transaction twice: the part between two visits could be left out.
  have hmin := Nat.find_spec hex
  set n := Nat.find hex with hn
  refine ⟨n, ?_, hmin⟩
  let visited : Nat → TxId := fun j => (l.walk j tx).getD target
  have hinj : Set.InjOn visited (Finset.range n : Set Nat) := by
    intro i hi j hj hij
    rw [Finset.coe_range, Set.mem_Iio] at hi hj
    rcases mem_waits_of_walk hi hmin with ⟨a, _, ha⟩
    rcases mem_waits_of_walk hj hmin with ⟨b, _, hb⟩
    have hab : a = b := by simpa [visited, ha, hb] using hij
    -- Two visits of one transaction, and the part between them left out.
    have shorter : ∀ i j, i < j → j < n → l.walk i tx = l.walk j tx → False := by
      intro i j hlt hjn heq
      have hcut : l.walk (i + (n - j)) tx = some target := by
        rw [walk_add, heq, ← walk_add, show j + (n - j) = n by omega]
        exact hmin
      exact Nat.find_min hex (m := i + (n - j)) (by omega) hcut
    rcases Nat.lt_trichotomy i j with hlt | heq | hgt
    · exact (shorter i j hlt hj (by rw [ha, hb, hab])).elim
    · exact heq
    · exact (shorter j i hgt hi (by rw [ha, hb, hab])).elim
  -- All that it visits before its end wait for something.
  have hmaps : ∀ j ∈ Finset.range n, visited j ∈ l.waits.keys.toFinset := by
    intro j hj
    rcases mem_waits_of_walk (Finset.mem_range.1 hj) hmin with ⟨a, hmem, ha⟩
    simpa [visited, ha] using hmem
  have hcard := Finset.card_le_card_of_injOn visited hmaps hinj
  rw [Finset.card_range] at hcard
  calc n ≤ l.waits.keys.toFinset.card := hcard
    _ ≤ l.waits.keys.length := List.toFinset_card_le _
    _ = l.waits.size := List.length_map _

/-- The cycle check finds the one who asks exactly if it is reached from the holder. -/
theorem wouldDeadlock_iff (l : RowLocks) (asker holder : TxId) :
    l.wouldDeadlock asker holder = true ↔ ReflTransGen l.Ahead holder asker := by
  rw [wouldDeadlock, leadsTo_iff_walk, reaches_iff_walk]
  constructor
  · rintro ⟨steps, _, h⟩
    exact ⟨steps, h⟩
  · rintro ⟨steps, h⟩
    rcases walk_short h with ⟨j, hj, hwalk⟩
    exact ⟨j, by omega, hwalk⟩

/-- Whatever the locks and the waits are, the cycle check finds the one who asks exactly if waits
lead there from the holder, over any number of others or none, and no longer walk would find
more. -/
theorem cycle_check_exact (l : RowLocks) (asker holder : TxId) :
    (l.wouldDeadlock asker holder = true ↔
      ReflTransGen (fun tx next => ∃ row, l.waits.get? tx = some row ∧
        l.holders.get? row = some next) holder asker) ∧
    ∀ visits, l.leadsTo asker visits holder = true → l.wouldDeadlock asker holder = true := by
  constructor
  · have hahead : (fun tx next => ∃ row, l.waits.get? tx = some row ∧
        l.holders.get? row = some next) = l.Ahead := by
      funext tx next
      exact propext (ahead?_eq_some_iff l tx next).symm
    rw [hahead]
    exact wouldDeadlock_iff l asker holder
  · intro visits hled
    rcases (leadsTo_iff_walk l asker visits holder).1 hled with ⟨steps, _, hwalk⟩
    rw [wouldDeadlock_iff, reaches_iff_walk]
    exact ⟨steps, hwalk⟩

section Cycles

variable {l : RowLocks} {tx : TxId} {row : AccountId}

/-- Taking edges away makes no cycle. -/
theorem acyclic_of_subset {l' : RowLocks} (h : l.Acyclic)
    (hsub : ∀ a b, l'.Ahead a b → l.Ahead a b) : l'.Acyclic :=
  fun a hcycle => h a (TransGen.mono hsub a a hcycle)

theorem acyclic_stopWaiting (h : l.Acyclic) (tx : TxId) : (l.stopWaiting tx).Acyclic := by
  refine acyclic_of_subset h ?_
  intro a b hab
  rcases (ahead?_eq_some_iff _ a b).1 hab with ⟨r, hwait, hhold⟩
  rw [stopWaiting, Table.get?_erase] at hwait
  by_cases ha : tx = a
  · simp [ha] at hwait
  · rw [if_neg ha] at hwait
    exact (ahead?_eq_some_iff l a b).2 ⟨r, hwait, hhold⟩

theorem acyclic_release (h : l.Acyclic) (tx : TxId) (rows : List AccountId) :
    (l.release tx rows).Acyclic := by
  refine acyclic_of_subset h ?_
  intro a b hab
  rcases (ahead?_eq_some_iff _ a b).1 hab with ⟨r, hwait, hhold⟩
  rw [waits_release] at hwait
  rw [holder_release] at hhold
  by_cases ha : tx = a
  · simp [ha] at hwait
  · rw [if_neg ha] at hwait
    by_cases hr : r ∈ rows ∧ l.holders.get? r = some tx
    · simp [hr] at hhold
    · rw [if_neg hr] at hhold
      exact (ahead?_eq_some_iff l a b).2 ⟨r, hwait, hhold⟩

/-- An edge after a row was taken leads to the one who took it, or was there before. -/
theorem ahead_take {a b : TxId} (h : (l.take tx row).Ahead a b) :
    a ≠ tx ∧ (b = tx ∨ l.Ahead a b) := by
  rcases (ahead?_eq_some_iff _ a b).1 h with ⟨r, hwait, hhold⟩
  rw [take, Table.get?_erase] at hwait
  rw [take, Table.get?_insert] at hhold
  by_cases ha : tx = a
  · simp [ha] at hwait
  · rw [if_neg ha] at hwait
    refine ⟨fun h => ha h.symm, ?_⟩
    by_cases hr : row = r
    · rw [if_pos hr, Option.some.injEq] at hhold
      exact Or.inl hhold.symm
    · rw [if_neg hr] at hhold
      exact Or.inr ((ahead?_eq_some_iff l a b).2 ⟨r, hwait, hhold⟩)

-- A path that has come to `tx` ends there, because the wait of `tx` is gone. So a path has used old
-- edges only, or it ends at `tx`, and a cycle would have to leave `tx` again.
/-- Whoever takes a row waits for nobody, so no cycle leads through it. -/
theorem acyclic_take (h : l.Acyclic) : (l.take tx row).Acyclic := by
  have hpath : ∀ a b, TransGen (l.take tx row).Ahead a b → b = tx ∨ TransGen l.Ahead a b := by
    intro a b hab
    induction hab with
    | single hstep =>
        rcases (ahead_take hstep).2 with hb | hold
        · exact Or.inl hb
        · exact Or.inr (TransGen.single hold)
    | tail _ hstep ih =>
        rcases ih with hb | hold
        · exact absurd hb (ahead_take hstep).1
        · rcases (ahead_take hstep).2 with hc | hnew
          · exact Or.inl hc
          · exact Or.inr (hold.tail hnew)
  intro a hcycle
  rcases hpath a a hcycle with ha | hold
  · rcases TransGen.head'_iff.1 hcycle with ⟨b, hstep, _⟩
    exact (ahead_take hstep).1 ha
  · exact h a hold

/-- An edge after a wait began is the wait, or was there before. -/
theorem ahead_startWaiting {a b : TxId} (h : (l.startWaiting tx row).Ahead a b) :
    (a = tx ∧ l.holders.get? row = some b) ∨ (a ≠ tx ∧ l.Ahead a b) := by
  rcases (ahead?_eq_some_iff _ a b).1 h with ⟨r, hwait, hhold⟩
  rw [startWaiting, Table.get?_insert] at hwait
  by_cases ha : tx = a
  · rw [if_pos ha, Option.some.injEq] at hwait
    exact Or.inl ⟨ha.symm, by rw [hwait]; exact hhold⟩
  · rw [if_neg ha] at hwait
    exact Or.inr ⟨fun h => ha h.symm, (ahead?_eq_some_iff l a b).2 ⟨r, hwait, hhold⟩⟩

/-- A wait for a holder that does not itself lead back closes no cycle. -/
theorem acyclic_startWaiting {holder : TxId} (h : l.Acyclic)
    (hheld : l.holders.get? row = some holder) (hfar : l.wouldDeadlock tx holder = false) :
    (l.startWaiting tx row).Acyclic := by
  have hno : ¬ ReflTransGen l.Ahead holder tx := by
    rw [← wouldDeadlock_iff, hfar]
    simp
  -- A path that uses the new edge comes to `tx` and goes on from the holder.
  have hpath : ∀ a b, TransGen (l.startWaiting tx row).Ahead a b → TransGen l.Ahead a b ∨
      (ReflTransGen l.Ahead a tx ∧ ReflTransGen l.Ahead holder b) := by
    intro a b hab
    induction hab with
    | single hstep =>
        rcases ahead_startWaiting hstep with ⟨rfl, hb⟩ | ⟨_, hold⟩
        · rw [hheld, Option.some.injEq] at hb
          exact Or.inr ⟨ReflTransGen.refl, hb ▸ ReflTransGen.refl⟩
        · exact Or.inl (TransGen.single hold)
    | tail _ hstep ih =>
        rcases ahead_startWaiting hstep with ⟨rfl, hb⟩ | ⟨_, hold⟩
        · rw [hheld, Option.some.injEq] at hb
          rcases ih with hold | ⟨_, hback⟩
          · exact Or.inr ⟨hold.to_reflTransGen, hb ▸ ReflTransGen.refl⟩
          · exact absurd hback hno
        · rcases ih with hpath | ⟨hto, hfrom⟩
          · exact Or.inl (hpath.tail hold)
          · exact Or.inr ⟨hto, hfrom.tail hold⟩
  intro a hcycle
  rcases hpath a a hcycle with hold | ⟨hto, hfrom⟩
  · exact h a hold
  · exact hno (hfrom.trans hto)

end Cycles

/-- In a graph without cycles every walk comes to somebody who does not wait. -/
theorem exists_end {l : RowLocks} (h : l.Acyclic) (tx : TxId) :
    ∃ last, ReflTransGen l.Ahead tx last ∧ l.ahead? last = none := by
  by_contra hno
  push Not at hno
  -- Otherwise the walk never stops, and the transaction it comes to late it has seen before.
  have hgo : ∀ n, ∃ last, l.walk n tx = some last := by
    intro n
    induction n with
    | zero => exact ⟨tx, rfl⟩
    | succ k ih =>
        rcases ih with ⟨last, hlast⟩
        have hreach := (reaches_iff_walk l tx last).2 ⟨k, hlast⟩
        rcases Option.ne_none_iff_exists'.1 (hno last hreach) with ⟨next, hnext⟩
        exact ⟨next, by rw [walk, hlast]; exact hnext⟩
  rcases hgo (l.waits.size + 1) with ⟨late, hlate⟩
  -- By `walk_short` it is reached earlier, too, and the walk between the two visits is a cycle.
  rcases walk_short hlate with ⟨j, hj, hearly⟩
  have hback : l.walk (l.waits.size + 1 - j) late = some late := by
    have := walk_add l j (l.waits.size + 1 - j) tx
    rw [show j + (l.waits.size + 1 - j) = l.waits.size + 1 by omega, hlate, hearly] at this
    exact this.symm
  rw [show l.waits.size + 1 - j = l.waits.size - j + 1 by omega, walk_succ',
    Option.bind_eq_some_iff] at hback
  rcases hback with ⟨next, hstep, hrest⟩
  exact h late (TransGen.head' hstep ((reaches_iff_walk l next late).2 ⟨_, hrest⟩))

end RowLocks

end RowLedger
