import RowLedger.Proofs.Consistency
import RowLedger.Proofs.WaitGraph

/-!
# Who waits for whom

No run of a store ever has a cycle of waits, because an edge of the graph only
comes to be where it closes none. And no call waits for nothing. A call that
has not been woken waits for a row that is still held, which is part of the
consistency of the store. A call that has been woken may find its row free, but
then it takes the row as soon as it looks. So once no woken call has anything
to gain from looking, the row of every call that waits is held by somebody
else, and from holder to holder one comes to a transaction that is open and
does not wait: somebody can always go on.

## Main definitions

* `Store.Settled`: No call that was woken can go on.
* `Store.BlockedOn`: The call of a transaction waits for a row that another one
  holds.

## Theorems

* `acyclic_step`, `acyclic_after`: No run has a cycle of waits.
* `blockedOn_of_settled`: A call that waits for good waits for somebody.
* `exists_runner`: Behind every call that waits is an open transaction that
  does not.
* `exists_settled`: Polling the calls that wait comes to an end.
-/

namespace RowLedger

open Relation

namespace Store

/-- No call that was woken can go on: each of them looks at its row and waits again. -/
def Settled (s : Store) : Prop :=
  ∀ tx r, s.wait? tx = some ⟨r, true⟩ → (s.poll tx).1 = .waiting

/-- The call of a transaction waits for a row that another one holds. -/
def BlockedOn (s : Store) (tx holder : TxId) : Prop :=
  ∃ w, s.wait? tx = some w ∧ s.locks.holders.get? w.request.row = some holder

variable {s : Store}

theorem acyclic_examined {tx : TxId} {t : OpenTx} {r : Request} {result : Reply × Store}
    (h : s.locks.Acyclic) (hlook : Examined s tx t r result) : result.2.locks.Acyclic := by
  cases hlook with
  | absent => exact RowLocks.acyclic_stopWaiting h tx
  | granted => exact RowLocks.acyclic_take h
  | cycle => exact RowLocks.acyclic_stopWaiting h tx
  | waiting _ hheld hfar => exact RowLocks.acyclic_startWaiting h hheld hfar

theorem acyclic_drop {tx : TxId} {t : OpenTx} (h : s.locks.Acyclic)
    (hlive : s.live.get? tx = some t) : (s.release tx).locks.Acyclic := by
  rw [release_eq hlive]
  exact RowLocks.acyclic_release h tx t.held

-- The check is made when a wait begins, but the graph also changes when a row is taken that others
-- have marked: `acyclic_take` is why that needs no check.
/-- No event closes a cycle of waits. -/
theorem acyclic_step (h : s.locks.Acyclic) (e : Event) : (s.step e).2.locks.Acyclic := by
  have hstep := stepped s e
  generalize s.step e = result at hstep
  cases hstep with
  | nothing => exact h
  | started => exact h
  | closed => exact h
  | served => exact h
  | asked _ _ _ hlook => exact acyclic_examined h hlook
  | polled _ _ hlook => exact acyclic_examined h hlook
  | abandoned => exact h
  | dropped hlive => exact acyclic_drop h hlive
  | rolledBack hlive => exact acyclic_drop h hlive
  | committed hlive _ hend =>
      have hrel := acyclic_drop h hlive
      cases hend with
      | conflict => exact hrel
      | rejected => exact hrel
      | applied => exact hrel
  | inserted => exact h
  | injected => exact h

theorem acyclic_empty : empty.locks.Acyclic := by
  intro tx hcycle
  rcases TransGen.head'_iff.1 hcycle with ⟨next, hstep, _⟩
  simp [RowLocks.Ahead, RowLocks.ahead?, empty, RowLocks.empty] at hstep

/-- No run has a cycle of waits. -/
theorem acyclic_after (h : s.locks.Acyclic) (events : List Event) :
    (s.after events).locks.Acyclic :=
  after_induction (P := fun s => s.locks.Acyclic) events s h fun _ e _ hs => acyclic_step hs e

theorem wait?_eq_some_iff {tx : TxId} {w : Wait} :
    s.wait? tx = some w ↔ ∃ t, s.live.get? tx = some t ∧ t.blocked = some w := by
  rw [wait?, Option.bind_eq_some_iff]

theorem isOpen_of_isBlocked {tx : TxId} (h : s.isBlocked tx = true) : s.isOpen tx = true := by
  rcases Option.isSome_iff_exists.1 h with ⟨w, hw⟩
  rcases wait?_eq_some_iff.1 hw with ⟨t, hlive, _⟩
  rw [isOpen, Table.contains, hlive]
  rfl

/-- A wait of a call is an edge of the graph. -/
theorem ahead_of_blockedOn (h : s.Consistent) {tx holder : TxId} (hb : s.BlockedOn tx holder) :
    s.locks.Ahead tx holder := by
  rcases hb with ⟨w, hw, hheld⟩
  rcases wait?_eq_some_iff.1 hw with ⟨t, hlive, hblocked⟩
  exact (RowLocks.ahead?_eq_some_iff _ _ _).2
    ⟨w.request.row, h.blocked_wait tx t w hlive hblocked, hheld⟩

/-- A look that ends in waiting was at a row that somebody holds. -/
theorem held_of_waiting {tx : TxId} {t : OpenTx} {r : Request}
    (hwait : (s.examine tx t r).1 = .waiting) :
    ∃ holder, s.locks.holders.get? r.row = some holder := by
  have hlook := examined s tx t r
  generalize s.examine tx t r = result at hlook hwait
  cases hlook with
  | absent => simp at hwait
  | granted => exact absurd hwait (OpenTx.serve_ne_waiting _ _ _)
  | cycle => simp at hwait
  | waiting _ hheld => exact ⟨_, hheld⟩

-- If it has not been woken, its row is held because the store is consistent. If it has, then it has
-- looked again and found the row held.
/-- A call that waits for good waits for another transaction, which is open. -/
theorem blockedOn_of_settled (h : s.Consistent) (hset : s.Settled) {tx : TxId}
    (hblocked : s.isBlocked tx = true) :
    ∃ holder, s.BlockedOn tx holder ∧ holder ≠ tx ∧ s.isOpen holder = true := by
  rcases Option.isSome_iff_exists.1 hblocked with ⟨⟨r, woken⟩, hw⟩
  rcases wait?_eq_some_iff.1 hw with ⟨t, hlive, hb⟩
  have hheld : ∃ holder, s.locks.holders.get? r.row = some holder := by
    cases woken with
    | false => exact Option.isSome_iff_exists.1 (h.unwoken_held tx t _ hlive hb rfl)
    | true =>
        have hpoll := hset tx r hw
        rw [poll, hlive] at hpoll
        simp only [hb] at hpoll
        exact held_of_waiting hpoll
  rcases hheld with ⟨holder, hheld⟩
  refine ⟨holder, ⟨_, hw, hheld⟩, ?_, ?_⟩
  · rintro rfl
    exact h.holder_ne hlive (h.blocked_new hlive hb) hheld
  · rcases (h.holder_iff _ _).1 hheld with ⟨t', hlive', _⟩
    rw [isOpen, Table.contains, hlive']
    rfl

/-- Behind every call that waits for good there is an open transaction that does not wait. -/
theorem exists_runner (h : s.Consistent) (hacyclic : s.locks.Acyclic) (hset : s.Settled)
    {tx : TxId} (hopen : s.isOpen tx = true) :
    ∃ last, ReflTransGen s.BlockedOn tx last ∧ s.isOpen last = true ∧
      s.isBlocked last = false := by
  rcases RowLocks.exists_end hacyclic tx with ⟨stop, hpath, hstop⟩
  -- The graph may lead further than the calls that wait do, over a wait that was given up.
  induction hpath using ReflTransGen.head_induction_on with
  | refl =>
      refine ⟨stop, ReflTransGen.refl, hopen, ?_⟩
      rw [← Bool.not_eq_true]
      intro hblocked
      rcases blockedOn_of_settled h hset hblocked with ⟨holder, hb, _⟩
      have := ahead_of_blockedOn h hb
      rw [RowLocks.Ahead, hstop] at this
      simp at this
  | @head a b hstep _ ih =>
      cases hblocked : s.isBlocked a with
      | false => exact ⟨a, ReflTransGen.refl, hopen, hblocked⟩
      | true =>
          rcases blockedOn_of_settled h hset hblocked with ⟨holder, hb, _, hopen'⟩
          have hsame := ahead_of_blockedOn h hb
          rw [RowLocks.Ahead, hstep, Option.some.injEq] at hsame
          rcases ih (hsame ▸ hopen') with ⟨last, hlast, hend⟩
          exact ⟨last, ReflTransGen.head (hsame ▸ hb) hlast, hend⟩

/-- After a look at its row a call is not woken any longer. -/
theorem unwoken_examined {tx : TxId} {t : OpenTx} {r : Request} {result : Reply × Store}
    (hlook : Examined s tx t r result) {other : TxId} {r' : Request}
    (hw : result.2.wait? other = some ⟨r', true⟩) :
    other ≠ tx ∧ s.wait? other = some ⟨r', true⟩ := by
  have hput : ∀ {t' : OpenTx} {locks : RowLocks}, (∀ w, t'.blocked = some w → w.woken = false) →
      (s.put tx t' locks).wait? other = some ⟨r', true⟩ →
      other ≠ tx ∧ s.wait? other = some ⟨r', true⟩ := by
    intro t' locks hunwoken hw
    rw [wait?, put_live] at hw
    by_cases heq : tx = other
    · rw [if_pos heq, Option.bind_some] at hw
      exact absurd (hunwoken _ hw) (by simp)
    · rw [if_neg heq] at hw
      exact ⟨fun hc => heq hc.symm, hw⟩
  cases hlook with
  | absent => exact hput (by simp) hw
  | granted =>
      refine hput ?_ hw
      rw [OpenTx.serve_blocked]
      simp
  | cycle => exact hput (by simp) hw
  | waiting => exact hput (by simp) hw

/-- A poll wakes nobody, and leaves its own call unwoken. -/
theorem unwoken_poll {tx other : TxId} {r : Request}
    (hw : (s.step (.poll tx)).2.wait? other = some ⟨r, true⟩) :
    other ≠ tx ∧ s.wait? other = some ⟨r, true⟩ := by
  rw [step] at hw
  split at hw
  · rename_i r' hwoken
    rcases wait?_eq_some_iff.1 hwoken with ⟨t, hlive, hb⟩
    have hpoll : s.poll tx = s.examine tx t r' := by
      rw [poll, hlive]
      simp only [hb]
    rw [hpoll] at hw
    exact unwoken_examined (examined s tx t r') hw
  · rename_i hnot
    refine ⟨?_, hw⟩
    rintro rfl
    exact hnot r hw

theorem unwoken_polls (txs : List TxId) {other : TxId} {r : Request}
    (hw : (s.after (txs.map .poll)).wait? other = some ⟨r, true⟩) :
    other ∉ txs ∧ s.wait? other = some ⟨r, true⟩ := by
  induction txs generalizing s with
  | nil => exact ⟨List.not_mem_nil, hw⟩
  | cons tx rest ih =>
      rcases ih hw with ⟨hrest, hnext⟩
      rcases unwoken_poll hnext with ⟨hne, hbefore⟩
      refine ⟨?_, hbefore⟩
      rw [List.mem_cons, not_or]
      exact ⟨hne, hrest⟩

theorem settled_of_unwoken (h : ∀ tx r, s.wait? tx ≠ some ⟨r, true⟩) : s.Settled :=
  fun tx r hw => absurd hw (h tx r)

theorem settled_of_entries
    (h : s.live.entries.all (fun e => e.2.blocked.all (!·.woken)) = true) : s.Settled := by
  refine settled_of_unwoken ?_
  intro tx r hw
  rcases wait?_eq_some_iff.1 hw with ⟨t, hlive, hb⟩
  have := List.all_eq_true.1 h (tx, t) ((Table.mem_entries_iff _ _ _).2 hlive)
  rw [hb] at this
  simp at this

/-- Polling the calls that wait comes to an end: one poll of each is enough. -/
theorem exists_settled (s : Store) : ∃ txs : List TxId, (s.after (txs.map .poll)).Settled := by
  refine ⟨s.live.keys, settled_of_unwoken ?_⟩
  intro tx r hw
  rcases unwoken_polls _ hw with ⟨hnot, hwait⟩
  rcases wait?_eq_some_iff.1 hwait with ⟨t, hlive, _⟩
  exact hnot ((s.live.mem_keys_iff tx).2 (by rw [hlive]; rfl))

end Store

end RowLedger
