import RowLedger.Proofs.Consistency

/-!
# What the others leave alone

Two phase locking, seen from one transaction. As long as it is open, nothing
that the others do changes its record, except that they wake its call; and as
long as it holds a row, no commit of another transaction changes that account.
So what a transaction has read stays true until it ends. Only to put a new
account in the place of the old one goes past the locks.

## Theorems

* `live_step_other`: The record of a transaction changes by its own doing.
* `holder_unique`: A row is in the record of one transaction at most.
* `accounts_step_held`: An account under lock stays as it is.
* `isSome_accounts_step`: No account comes or goes.
-/

namespace RowLedger

namespace Store

variable {s : Store}

theorem begun_step_le (s : Store) (e : Event) : s.begun ≤ (s.step e).2.begun := by
  have hlook : ∀ {tx : TxId} {t : OpenTx} {r : Request} {result : Reply × Store},
      Examined s tx t r result → s.begun ≤ result.2.begun := by
    intro tx t r result hlook
    rcases exists_put hlook with ⟨t', locks, heq⟩
    have hsame : result.2.begun = s.begun := by rw [heq, put_begun]
    exact Nat.le_of_eq hsame.symm
  have hstep := stepped s e
  generalize s.step e = result at hstep
  cases hstep with
  | started => exact Nat.le_succ _
  | asked _ _ _ h => exact hlook h
  | polled _ _ h => exact hlook h
  | @dropped tx => exact Nat.le_of_eq (release_begun s tx).symm
  | @rolledBack tx => exact Nat.le_of_eq (release_begun s tx).symm
  | @committed tx _ _ _ _ hend =>
      have hrel := Nat.le_of_eq (release_begun s tx).symm
      cases hend with
      | conflict => exact hrel
      | rejected => exact hrel
      | applied => exact hrel
  | _ => exact Nat.le_refl _

/-- Nothing that others do changes the record of a transaction, except that its call is woken. -/
theorem live_step_other {e : Event} {tx : TxId} (hle : tx ≤ s.begun) (he : e.tx? ≠ some tx) :
    (s.step e).2.live.get? tx = s.live.get? tx ∨
      (s.step e).2.live.get? tx = (s.live.get? tx).map OpenTx.wake := by
  have hput : ∀ {other : TxId} {t' : OpenTx} {locks : RowLocks}, other ≠ tx →
      (s.put other t' locks).live.get? tx = s.live.get? tx := by
    intro other t' locks hne
    rw [put_live, if_neg hne]
  have hlook : ∀ {other : TxId} {t : OpenTx} {r : Request} {result : Reply × Store},
      other ≠ tx → Examined s other t r result → result.2.live.get? tx = s.live.get? tx := by
    intro other t r result hne hlook
    rcases exists_put hlook with ⟨t', locks, heq⟩
    rw [heq]
    exact hput hne
  have hend : ∀ {other : TxId} {t : OpenTx}, s.live.get? other = some t → other ≠ tx →
      (s.release other).live.get? tx = (s.live.get? tx).map OpenTx.wake := by
    intro other t hlive hne
    rw [live_release hlive, if_neg hne]
  have hne : ∀ {other : TxId}, some other ≠ some tx → other ≠ tx := fun h hc => h (hc ▸ rfl)
  have hstep := stepped s e
  generalize s.step e = result at hstep
  cases hstep with
  | nothing => exact Or.inl rfl
  | started =>
      refine Or.inl ?_
      rw [start, Table.get?_insert, if_neg]
      intro hc
      exact absurd (hc ▸ hle) (Nat.not_succ_le_self _)
  | closed => exact Or.inl rfl
  | served => exact Or.inl (hput (hne he))
  | asked _ _ _ h => exact Or.inl (hlook (hne he) h)
  | polled _ _ h => exact Or.inl (hlook (hne he) h)
  | abandoned => exact Or.inl (hput (hne he))
  | dropped hlive => exact Or.inr (hend hlive (hne he))
  | rolledBack hlive => exact Or.inr (hend hlive (hne he))
  | committed hlive _ h =>
      have hrel := hend hlive (hne he)
      cases h with
      | conflict => exact Or.inr hrel
      | rejected => exact Or.inr hrel
      | applied => exact Or.inr hrel
  | inserted => exact Or.inl rfl
  | injected => exact Or.inl rfl

/-- A row is in the record of one transaction at most. -/
theorem holder_unique (h : s.Consistent) {a b : TxId} {ta tb : OpenTx} {row : AccountId}
    (ha : s.live.get? a = some ta) (hb : s.live.get? b = some tb) (hma : row ∈ ta.held)
    (hmb : row ∈ tb.held) : a = b := by
  have h1 := (h.holder_iff row a).2 ⟨ta, ha, hma⟩
  rw [(h.holder_iff row b).2 ⟨tb, hb, hmb⟩, Option.some.injEq] at h1
  exact h1.symm

theorem pending_entry_held (h : s.Consistent) {tx : TxId} {t : OpenTx}
    (hlive : s.live.get? tx = some t) {entry : AccountId × Decimal}
    (hmem : entry ∈ t.pending.entries) : entry.1 ∈ t.held := by
  refine h.pending_held tx t entry.1 hlive ?_
  rw [(Table.mem_entries_iff t.pending entry.1 entry.2).1 hmem]
  rfl

/-- Only a commit and an insertion change accounts. -/
theorem accounts_step {e : Event} (hins : ∀ id balance, e ≠ .insert id balance) :
    (s.step e).2.accounts = s.accounts ∨ ∃ tx t, e = .call tx .commit ∧
      s.live.get? tx = some t ∧ (s.step e).1 = some ⟨tx, .commit, .done⟩ ∧
      applyAll s.accounts t.pending.entries = .ok (s.step e).2.accounts := by
  have hlook : ∀ {other : TxId} {t : OpenTx} {r : Request} {result : Reply × Store},
      Examined s other t r result → result.2.accounts = s.accounts := by
    intro other t r result hlook
    rcases exists_put hlook with ⟨t', locks, heq⟩
    rw [heq, put_accounts]
  have hstep := stepped s e
  generalize s.step e = result at hstep
  cases hstep with
  | nothing => exact Or.inl rfl
  | started => exact Or.inl rfl
  | closed => exact Or.inl rfl
  | served => exact Or.inl rfl
  | asked _ _ _ h => exact Or.inl (hlook h)
  | polled _ _ h => exact Or.inl (hlook h)
  | abandoned => exact Or.inl rfl
  | dropped => exact Or.inl (release_accounts _ _)
  | rolledBack => exact Or.inl (release_accounts _ _)
  | @committed tx t result hlive _ h =>
      cases h with
      | conflict => exact Or.inl (release_accounts _ _)
      | rejected => exact Or.inl (release_accounts _ _)
      | applied _ hall => exact Or.inr ⟨tx, t, rfl, hlive, rfl, hall⟩
  | inserted id balance => exact absurd rfl (hins id balance)
  | injected => exact Or.inl rfl

-- Only a commit writes, it writes what it holds, and no row is held twice.
/-- An account under lock stays as it is, whatever the others do. -/
theorem accounts_step_held (h : s.Consistent) {e : Event} {tx : TxId} {t : OpenTx}
    (hlive : s.live.get? tx = some t) (he : e.tx? ≠ some tx)
    (hins : ∀ id balance, e ≠ .insert id balance) {row : AccountId} (hmem : row ∈ t.held) :
    (s.step e).2.accounts.get? row = s.accounts.get? row := by
  rcases accounts_step (s := s) hins with heq | ⟨other, t', rfl, hlive', _, hall⟩
  · rw [heq]
  · refine get?_applyAll_other hall ?_
    intro entry hentry hrow
    have := holder_unique h hlive hlive' hmem (hrow ▸ pending_entry_held h hlive' hentry)
    exact he (by rw [Event.tx?, this])

/-- No account comes or goes unless one is put in. -/
theorem isSome_accounts_step {e : Event} (hins : ∀ id balance, e ≠ .insert id balance)
    (row : AccountId) :
    ((s.step e).2.accounts.get? row).isSome = (s.accounts.get? row).isSome := by
  rcases accounts_step (s := s) hins with heq | ⟨_, _, _, _, _, hall⟩
  · rw [heq]
  · exact isSome_applyAll hall row

end Store

end RowLedger
