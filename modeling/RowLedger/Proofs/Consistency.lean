import RowLedger.Proofs.Steps

/-!
# Consistency of the store

What the store writes down in two places stays equal, whatever happens to it.
The locks name the holder of a row exactly if the holder has the row in its
record. A wait in the graph belongs to an open transaction that does not hold
the row, and a call that waits has such a wait; the converse fails, since the
wait of a call that was given up stays. Every row that is held or waited for
exists.

The last clause is about waking. A call that has not been woken since it last
looked at its row need not look again, because the row is still held by
somebody: rows are only given back by the end of a transaction, and that wakes
every call.

An operation changes the record of one transaction together with the locks, or
it ends one, so there are two lemmas from which everything else follows.

## Main definitions

* `Store.Consistent`: The two sides of the store agree.

## Theorems

* `consistent_put`: What a change of one record has to respect.
* `consistent_release`: The end of a transaction leaves nothing behind.
* `consistent_step`, `consistent_after`: Every run is consistent.
-/

namespace RowLedger

namespace Store

/-- The two sides of the store agree. -/
structure Consistent (s : Store) : Prop where
  /-- The locks and the records name the same holders. -/
  holder_iff : ∀ row tx, s.locks.holders.get? row = some tx ↔
    ∃ t, s.live.get? tx = some t ∧ row ∈ t.held
  held_nodup : ∀ tx t, s.live.get? tx = some t → t.held.Nodup
  /-- What is to be changed is held. -/
  pending_held : ∀ tx t row, s.live.get? tx = some t →
    (t.pending.get? row).isSome = true → row ∈ t.held
  /-- Who has a wait is open and does not hold the row. -/
  wait_open : ∀ tx row, s.locks.waits.get? tx = some row →
    ∃ t, s.live.get? tx = some t ∧ row ∉ t.held
  /-- A call that waits has its wait in the graph. -/
  blocked_wait : ∀ tx t w, s.live.get? tx = some t → t.blocked = some w →
    s.locks.waits.get? tx = some w.request.row
  held_exists : ∀ row tx, s.locks.holders.get? row = some tx →
    (s.accounts.get? row).isSome = true
  wait_exists : ∀ tx row, s.locks.waits.get? tx = some row →
    (s.accounts.get? row).isSome = true
  live_le : ∀ tx t, s.live.get? tx = some t → tx ≤ s.begun
  /-- The row of a call that has not been woken is still held. -/
  unwoken_held : ∀ tx t w, s.live.get? tx = some t → t.blocked = some w → w.woken = false →
    (s.locks.holders.get? w.request.row).isSome = true

namespace Consistent

variable {s : Store} {tx : TxId} {t : OpenTx}

/-- A row that a transaction has not locked is held by another one or by nobody. -/
theorem holder_ne (h : s.Consistent) (hlive : s.live.get? tx = some t) {row : AccountId}
    (hnew : row ∉ t.held) : s.locks.holders.get? row ≠ some tx := by
  intro hhold
  rcases (h.holder_iff row tx).1 hhold with ⟨t', hlive', hmem⟩
  rw [hlive, Option.some.injEq] at hlive'
  exact hnew (hlive' ▸ hmem)

/-- The row that a call waits for is not held by its transaction. -/
theorem blocked_new (h : s.Consistent) (hlive : s.live.get? tx = some t) {w : Wait}
    (hblocked : t.blocked = some w) : w.request.row ∉ t.held := by
  rcases h.wait_open tx _ (h.blocked_wait tx t w hlive hblocked) with ⟨t', hlive', hnew⟩
  rw [hlive, Option.some.injEq] at hlive'
  exact hlive' ▸ hnew

end Consistent

theorem consistent_empty : empty.Consistent where
  holder_iff := by simp [empty, RowLocks.empty]
  held_nodup := by simp [empty]
  pending_held := by simp [empty]
  wait_open := by simp [empty, RowLocks.empty]
  blocked_wait := by simp [empty]
  held_exists := by simp [empty, RowLocks.empty]
  wait_exists := by simp [empty, RowLocks.empty]
  live_le := by simp [empty]
  unwoken_held := by simp [empty]

section Put

variable {s : Store} {tx : TxId} {t t' : OpenTx} {locks : RowLocks}

-- The conditions are about `tx` alone, but for the holders: these are compared as a whole, because
-- the locks know them by rows.
/-- A change of the record of one transaction keeps a store consistent if the locks change with
it. -/
theorem consistent_put (h : s.Consistent) (hlive : s.live.get? tx = some t)
    (hhold : ∀ row other, locks.holders.get? row = some other ↔
      if other = tx then row ∈ t'.held else s.locks.holders.get? row = some other)
    (hgrow : ∀ row ∈ t.held, row ∈ t'.held)
    (hnodup : t'.held.Nodup)
    (hpending : ∀ row, (t'.pending.get? row).isSome = true → row ∈ t'.held)
    (hexists : ∀ row ∈ t'.held, (s.accounts.get? row).isSome = true)
    (hothers : ∀ other, other ≠ tx → locks.waits.get? other = s.locks.waits.get? other)
    (hwait : ∀ row, locks.waits.get? tx = some row →
      row ∉ t'.held ∧ (s.accounts.get? row).isSome = true)
    (hblocked : ∀ w, t'.blocked = some w → locks.waits.get? tx = some w.request.row ∧
      (w.woken = false → (locks.holders.get? w.request.row).isSome = true)) :
    (s.put tx t' locks).Consistent where
  holder_iff row other := by
    rw [put_locks, put_live, hhold]
    by_cases ho : other = tx
    · rw [if_pos ho, if_pos ho.symm]
      simp
    · rw [if_neg ho, if_neg (fun hc => ho hc.symm)]
      exact h.holder_iff row other
  held_nodup other o ho := by
    rcases live_put_cases ho with ⟨_, rfl⟩ | ⟨_, hold⟩
    · exact hnodup
    · exact h.held_nodup other o hold
  pending_held other o row ho := by
    rcases live_put_cases ho with ⟨_, rfl⟩ | ⟨_, hold⟩
    · exact hpending row
    · exact h.pending_held other o row hold
  wait_open other row hw := by
    rw [put_locks] at hw
    rw [put_live]
    by_cases heq : tx = other
    · rw [← heq] at hw
      rw [if_pos heq]
      exact ⟨t', rfl, (hwait row hw).1⟩
    · rw [hothers other (fun hc => heq hc.symm)] at hw
      rw [if_neg heq]
      exact h.wait_open other row hw
  blocked_wait other o w ho hb := by
    rw [put_locks]
    rcases live_put_cases ho with ⟨rfl, rfl⟩ | ⟨hne, hold⟩
    · exact (hblocked w hb).1
    · rw [hothers other (fun hc => hne hc.symm)]
      exact h.blocked_wait other o w hold hb
  held_exists row other ho := by
    rw [put_locks, hhold] at ho
    rw [put_accounts]
    by_cases heq : other = tx
    · rw [if_pos heq] at ho
      exact hexists row ho
    · rw [if_neg heq] at ho
      exact h.held_exists row other ho
  wait_exists other row hw := by
    rw [put_locks] at hw
    rw [put_accounts]
    by_cases heq : tx = other
    · exact (hwait row (heq ▸ hw)).2
    · rw [hothers other (fun hc => heq hc.symm)] at hw
      exact h.wait_exists other row hw
  live_le other o ho := by
    rw [put_begun]
    rcases live_put_cases ho with ⟨rfl, _⟩ | ⟨_, hold⟩
    · exact h.live_le tx t hlive
    · exact h.live_le other o hold
  unwoken_held other o w ho hb hw := by
    rw [put_locks]
    rcases live_put_cases ho with ⟨rfl, rfl⟩ | ⟨_, hold⟩
    · exact (hblocked w hb).2 hw
    · rcases Option.isSome_iff_exists.1 (h.unwoken_held other o w hold hb hw) with ⟨holder, hh⟩
      -- The holder has not given the row back, whether it is `tx` or not.
      have hstill : locks.holders.get? w.request.row = some holder := by
        rw [hhold]
        by_cases hc : holder = tx
        · rw [if_pos hc]
          rcases (h.holder_iff _ _).1 (hc ▸ hh) with ⟨t₀, hlive₀, hmem⟩
          rw [hlive, Option.some.injEq] at hlive₀
          exact hgrow _ (hlive₀ ▸ hmem)
        · rw [if_neg hc]
          exact hh
      rw [hstill]
      rfl

variable (h : s.Consistent) (hlive : s.live.get? tx = some t)
include h hlive

-- In this shape `consistent_put` asks for the holders.
/-- The holders, as far as one transaction is concerned. -/
theorem holder_split (row : AccountId) (other : TxId) :
    s.locks.holders.get? row = some other ↔
      if other = tx then row ∈ t.held else s.locks.holders.get? row = some other := by
  by_cases ho : other = tx
  · rw [if_pos ho, h.holder_iff, ho]
    constructor
    · rintro ⟨t₀, hlive₀, hmem⟩
      rw [hlive, Option.some.injEq] at hlive₀
      exact hlive₀ ▸ hmem
    · exact fun hmem => ⟨t, hlive, hmem⟩
  · rw [if_neg ho]

theorem held_exists_of_mem {row : AccountId} (hmem : row ∈ t.held) :
    (s.accounts.get? row).isSome = true :=
  h.held_exists row tx ((h.holder_iff row tx).2 ⟨t, hlive, hmem⟩)

theorem wait_new {row : AccountId} (hw : s.locks.waits.get? tx = some row) :
    row ∉ t.held ∧ (s.accounts.get? row).isSome = true := by
  rcases h.wait_open tx row hw with ⟨t₀, hlive₀, hnew⟩
  rw [hlive, Option.some.injEq] at hlive₀
  exact ⟨hlive₀ ▸ hnew, h.wait_exists tx row hw⟩

/-- A change of the deltas of rows that are held already. -/
theorem consistent_keep_locks (hheld : t'.held = t.held) (hidle : t'.blocked = none)
    (hpending : ∀ row, (t'.pending.get? row).isSome = true → row ∈ t.held) :
    (s.put tx t' s.locks).Consistent := by
  refine consistent_put h hlive ?_ ?_ ?_ ?_ ?_ ?_ ?_ ?_
  · rw [hheld]
    exact holder_split h hlive
  · exact fun row hr => hheld.symm ▸ hr
  · exact hheld.symm ▸ h.held_nodup tx t hlive
  · rw [hheld]
    exact hpending
  · rw [hheld]
    exact fun row => held_exists_of_mem h hlive
  · exact fun _ _ => rfl
  · rw [hheld]
    exact fun row => wait_new h hlive
  · simp [hidle]

/-- A refusal that ends the wait for any row. -/
theorem consistent_stopWaiting : (s.put tx t.idle (s.locks.stopWaiting tx)).Consistent := by
  refine consistent_put h hlive (holder_split (t := t) h hlive) (fun _ hr => hr)
    (h.held_nodup tx t hlive) (fun row => h.pending_held tx t row hlive)
    (fun row => held_exists_of_mem h hlive) ?_ ?_ ?_
  · intro other hne
    rw [RowLocks.stopWaiting, Table.get?_erase, if_neg (fun hc => hne hc.symm)]
  · simp [RowLocks.stopWaiting]
  · simp

/-- A row that nobody held is taken. -/
theorem consistent_take {row : AccountId} (hfree : s.locks.holders.get? row = none)
    (hexists : (s.accounts.get? row).isSome = true) (hheld : t'.held = t.held ++ [row])
    (hidle : t'.blocked = none)
    (hpending : ∀ r, (t'.pending.get? r).isSome = true → r ∈ t'.held) :
    (s.put tx t' (s.locks.take tx row)).Consistent := by
  have hnew : row ∉ t.held := by
    intro hmem
    have := (h.holder_iff row tx).2 ⟨t, hlive, hmem⟩
    rw [hfree] at this
    simp at this
  refine consistent_put h hlive ?_ ?_ ?_ hpending ?_ ?_ ?_ ?_
  · intro r other
    rw [RowLocks.take, Table.get?_insert, hheld]
    have hsplit := holder_split h hlive r other
    by_cases hr : row = r
    · rw [if_pos hr, ← hr]
      rw [← hr, hfree] at hsplit
      by_cases ho : other = tx
      · simp [ho]
      · rw [if_neg ho, hfree]
        simp only [Option.some.injEq, reduceCtorEq, iff_false]
        exact fun hc => ho hc.symm
    · rw [if_neg hr, hsplit]
      by_cases ho : other = tx
      · rw [if_pos ho, if_pos ho]
        simp [show r ≠ row from fun hc => hr hc.symm]
      · rw [if_neg ho, if_neg ho]
  · intro r hr
    rw [hheld]
    exact List.mem_append_left _ hr
  · rw [hheld, List.nodup_append]
    refine ⟨h.held_nodup tx t hlive, List.pairwise_singleton _ _, ?_⟩
    intro a ha b hb hab
    rw [List.mem_singleton] at hb
    exact hnew (hb ▸ hab ▸ ha)
  · intro r hr
    rw [hheld, List.mem_append, List.mem_singleton] at hr
    rcases hr with hr | hr
    · exact held_exists_of_mem h hlive hr
    · exact hr ▸ hexists
  · intro other hne
    rw [RowLocks.take, Table.get?_erase, if_neg (fun hc => hne hc.symm)]
  · simp [RowLocks.take]
  · simp [hidle]

/-- A call starts to wait for a row that somebody else holds, or goes on waiting for it. -/
theorem consistent_startWaiting {r : Request} {holder : TxId}
    (hheld : s.locks.holders.get? r.row = some holder) (hnew : r.row ∉ t.held) :
    (s.put tx { t with blocked := some ⟨r, false⟩ }
      (s.locks.startWaiting tx r.row)).Consistent := by
  have hexists := h.held_exists r.row holder hheld
  refine consistent_put h hlive (holder_split (t := t) h hlive) (fun _ hr => hr)
    (h.held_nodup tx t hlive) (fun row => h.pending_held tx t row hlive)
    (fun row => held_exists_of_mem h hlive) ?_ ?_ ?_
  · intro other hne
    rw [RowLocks.startWaiting, Table.get?_insert, if_neg (fun hc => hne hc.symm)]
  · intro row hw
    rw [RowLocks.startWaiting, Table.get?_insert, if_pos rfl, Option.some.injEq] at hw
    exact hw ▸ ⟨hnew, hexists⟩
  · intro w hw
    rw [Option.some.injEq] at hw
    rw [← hw, RowLocks.startWaiting, Table.get?_insert, if_pos rfl]
    exact ⟨rfl, fun _ => by rw [hheld]; rfl⟩

/-- A holder is left after a release if it is not the one that has ended. -/
theorem holder_release_iff (row : AccountId) (other : TxId) :
    (s.locks.release tx t.held).holders.get? row = some other ↔
      other ≠ tx ∧ s.locks.holders.get? row = some other := by
  rw [RowLocks.holder_release]
  by_cases hmine : s.locks.holders.get? row = some tx
  · rcases (h.holder_iff row tx).1 hmine with ⟨t₀, hlive₀, hmem⟩
    rw [hlive, Option.some.injEq] at hlive₀
    rw [if_pos ⟨hlive₀ ▸ hmem, hmine⟩, hmine]
    simp only [reduceCtorEq, Option.some.injEq, false_iff, not_and]
    exact fun hne heq => hne heq.symm
  · rw [if_neg (fun hc => hmine hc.2)]
    constructor
    · intro hother
      exact ⟨fun hc => hmine (hc ▸ hother), hother⟩
    · exact fun hother => hother.2

theorem consistent_release : (s.release tx).Consistent where
  holder_iff row other := by
    rw [release_locks hlive, holder_release_iff h hlive, h.holder_iff, live_release hlive]
    by_cases heq : tx = other
    · simp [heq]
    · rw [if_neg heq]
      constructor
      · rintro ⟨_, o, ho, hmem⟩
        exact ⟨o.wake, by rw [ho]; rfl, hmem⟩
      · rintro ⟨o, ho, hmem⟩
        rcases Option.map_eq_some_iff.1 ho with ⟨o₀, ho₀, rfl⟩
        exact ⟨fun hc => heq hc.symm, o₀, ho₀, hmem⟩
  held_nodup other o ho := by
    rcases live_release_cases hlive ho with ⟨_, o₀, ho₀, rfl⟩
    exact h.held_nodup other o₀ ho₀
  pending_held other o row ho := by
    rcases live_release_cases hlive ho with ⟨_, o₀, ho₀, rfl⟩
    exact h.pending_held other o₀ row ho₀
  wait_open other row hw := by
    rcases waits_of_release hlive hw with ⟨hne, hold⟩
    rcases h.wait_open other row hold with ⟨o, ho, hnew⟩
    exact ⟨o.wake, by rw [live_release hlive, if_neg hne, ho]; rfl, hnew⟩
  blocked_wait other o w ho hb := by
    rcases live_release_cases hlive ho with ⟨hne, o₀, ho₀, rfl⟩
    rcases Option.map_eq_some_iff.1 hb with ⟨w₀, hb₀, rfl⟩
    rw [release_locks hlive, RowLocks.waits_release, if_neg hne]
    exact h.blocked_wait other o₀ w₀ ho₀ hb₀
  held_exists row other ho := by
    rw [release_locks hlive, holder_release_iff h hlive] at ho
    rw [release_accounts]
    exact h.held_exists row other ho.2
  wait_exists other row hw := by
    rw [release_accounts]
    exact h.wait_exists other row (waits_of_release hlive hw).2
  live_le other o ho := by
    rcases live_release_cases hlive ho with ⟨_, o₀, ho₀, rfl⟩
    rw [release_begun]
    exact h.live_le other o₀ ho₀
  -- Nobody is unwoken when a transaction has ended.
  unwoken_held other o w ho hb hw := by
    rcases live_release_cases hlive ho with ⟨_, o₀, _, rfl⟩
    rcases Option.map_eq_some_iff.1 hb with ⟨w₀, _, rfl⟩
    simp at hw

end Put

section Step

variable {s : Store}

/-- No account that is held or waited for may go. -/
theorem consistent_accounts (h : s.Consistent) (accounts : Table AccountId Account) (due : Nat)
    (hmore : ∀ row, (s.accounts.get? row).isSome = true → (accounts.get? row).isSome = true) :
    { s with accounts, conflictsDue := due }.Consistent where
  holder_iff := h.holder_iff
  held_nodup := h.held_nodup
  pending_held := h.pending_held
  wait_open := h.wait_open
  blocked_wait := h.blocked_wait
  held_exists row tx hh := hmore row (h.held_exists row tx hh)
  wait_exists tx row hw := hmore row (h.wait_exists tx row hw)
  live_le := h.live_le
  unwoken_held := h.unwoken_held

/-- Whoever was there is still there when a transaction is opened, since its number is new. -/
theorem live_start_keep (h : s.Consistent) {tx : TxId} {t : OpenTx}
    (hlive : s.live.get? tx = some t) : s.start.2.live.get? tx = some t := by
  rw [live_start, if_neg, hlive]
  rintro rfl
  exact absurd (h.live_le _ t hlive) (Nat.not_succ_le_self _)

theorem consistent_start (h : s.Consistent) : s.start.2.Consistent where
  holder_iff row tx := by
    rw [show s.start.2.locks = s.locks from rfl, h.holder_iff]
    constructor
    · rintro ⟨t, ht, hmem⟩
      exact ⟨t, live_start_keep h ht, hmem⟩
    · rintro ⟨t, ht, hmem⟩
      rcases live_start_cases ht with ⟨_, rfl⟩ | hold
      · simp [OpenTx.fresh] at hmem
      · exact ⟨t, hold, hmem⟩
  held_nodup tx t ht := by
    rcases live_start_cases ht with ⟨_, rfl⟩ | hold
    · exact List.nodup_nil
    · exact h.held_nodup tx t hold
  pending_held tx t row ht hp := by
    rcases live_start_cases ht with ⟨_, rfl⟩ | hold
    · simp [OpenTx.fresh] at hp
    · exact h.pending_held tx t row hold hp
  wait_open tx row hw := by
    rcases h.wait_open tx row hw with ⟨t, ht, hnew⟩
    exact ⟨t, live_start_keep h ht, hnew⟩
  blocked_wait tx t w ht hb := by
    rcases live_start_cases ht with ⟨_, rfl⟩ | hold
    · simp [OpenTx.fresh] at hb
    · exact h.blocked_wait tx t w hold hb
  held_exists := h.held_exists
  wait_exists := h.wait_exists
  live_le tx t ht := by
    rcases live_start_cases ht with ⟨heq, _⟩ | hold
    · exact Nat.le_of_eq heq.symm
    · exact Nat.le_succ_of_le (h.live_le tx t hold)
  unwoken_held tx t w ht hb := by
    rcases live_start_cases ht with ⟨_, rfl⟩ | hold
    · simp [OpenTx.fresh] at hb
    · exact h.unwoken_held tx t w hold hb

theorem consistent_examined {tx : TxId} {t : OpenTx} {r : Request} {result : Reply × Store}
    (h : s.Consistent) (hlive : s.live.get? tx = some t) (hnew : r.row ∉ t.held)
    (hlook : Examined s tx t r result) : result.2.Consistent := by
  cases hlook with
  | absent => exact consistent_stopWaiting h hlive
  | @granted account haccount hfree =>
      have hheld : ((t.idle.lock r.row).serve (some account) r).2.held = t.held ++ [r.row] :=
        OpenTx.serve_held ..
      refine consistent_take h hlive hfree (by rw [haccount]; rfl) hheld
        (OpenTx.serve_blocked ..) ?_
      intro row hp
      rw [hheld, List.mem_append, List.mem_singleton]
      rcases OpenTx.serve_pending hp with hr | hold
      · exact Or.inr hr
      · exact Or.inl (h.pending_held tx t row hlive hold)
  | cycle => exact consistent_stopWaiting h hlive
  | waiting _ hheld => exact consistent_startWaiting h hlive hheld hnew

theorem consistent_served {tx : TxId} {t : OpenTx} (h : s.Consistent)
    (hlive : s.live.get? tx = some t) (hidle : t.blocked = none) (r : Request)
    (hheld : r.row ∈ t.held) (account : Option Account) :
    (s.put tx (t.serve account r).2 s.locks).Consistent := by
  refine consistent_keep_locks h hlive (OpenTx.serve_held ..)
    ((OpenTx.serve_blocked ..).trans hidle) ?_
  intro row hp
  rcases OpenTx.serve_pending hp with hr | hold
  · exact hr ▸ hheld
  · exact h.pending_held tx t row hlive hold

theorem consistent_committed {tx : TxId} {t : OpenTx} {result : Except Refusal Unit × Store}
    (h : s.Consistent) (hlive : s.live.get? tx = some t) (hend : Committed s tx t result) :
    result.2.Consistent := by
  have hrel := consistent_release h hlive
  cases hend with
  | conflict => exact consistent_accounts hrel _ _ (fun _ ha => ha)
  | rejected => exact hrel
  | applied hdue hall =>
      refine consistent_accounts hrel _ _ ?_
      intro row ha
      rw [release_accounts] at ha
      rwa [isSome_applyAll hall]

/-- Every event leaves a consistent store consistent. -/
theorem consistent_step (h : s.Consistent) (e : Event) : (s.step e).2.Consistent := by
  have hstep := stepped s e
  generalize s.step e = result at hstep
  cases hstep with
  | nothing => exact h
  | started => exact consistent_start h
  | closed => exact h
  | served hlive hidle hheld => exact consistent_served h hlive hidle _ hheld _
  | asked hlive hidle hnew hlook => exact consistent_examined h hlive hnew hlook
  | polled hlive hwoken hlook =>
      exact consistent_examined h hlive (h.blocked_new hlive hwoken) hlook
  | @abandoned tx t hlive =>
      exact consistent_keep_locks h hlive rfl rfl (fun row => h.pending_held tx t row hlive)
  | dropped hlive => exact consistent_release h hlive
  | rolledBack hlive => exact consistent_release h hlive
  | committed hlive hidle hend => exact consistent_committed h hlive hend
  | inserted id balance =>
      refine consistent_accounts h _ _ ?_
      intro row ha
      rw [Table.get?_insert]
      by_cases heq : id = row
      · rw [if_pos heq]
        rfl
      · rwa [if_neg heq]
  | injected conflicts => exact consistent_accounts h _ _ (fun _ ha => ha)

theorem consistent_ofAccounts (accounts : Table AccountId Account) :
    (ofAccounts accounts).Consistent :=
  consistent_accounts consistent_empty accounts 0 (by simp [empty])

/-- Every run leaves a consistent store consistent. -/
theorem consistent_after (h : s.Consistent) (events : List Event) :
    (s.after events).Consistent :=
  after_induction events s h fun _ e _ hs => consistent_step hs e

end Step

end Store

end RowLedger
