import RowLedger.Store.Run

/-!
# What the store can do

For each operation of the store, everything that can come of it, said once. A
call that looks at a row ends in one of four ways (`Examined`), and the end of
a transaction that was to be committed in one of three (`Committed`). An event
of a run is one of these or something simpler (`Stepped`), and whatever is to be
shown about all states of a store is shown for these cases.

What a transaction is told about a row does not depend on the others, as long
as it is told anything: `OpenTx.alone` is the answer that it would get if there
were no others. They can make it wait, and they can make it the victim of a
cycle, and that is all.

## Main definitions

* `OpenTx.alone`: The answer to a request when nobody is in the way.
* `Store.Examined`: How a look at a row ends.
* `Store.Answered`: What comes of a request for the one who makes it.
* `Store.Committed`: How an attempt to commit ends.
* `Store.Stepped`: What an event can do.

## Theorems

* `serve_held`, `serve_pending`: What serving a request leaves as it is.
* `examined`, `committed`, `stepped`: There are no other ways.
* `answered_request`, `answered_poll`: A request is answered as if alone,
  waits, or closes a cycle.
* `live_release`: The end of a transaction wakes the others.
* `isSome_applyAll`, `get?_applyAll_other`, `get?_applyAll`: What deltas do to
  the accounts.
-/

namespace RowLedger

namespace OpenTx

/-- The answer to a request when nobody is in the way. -/
def alone (t : OpenTx) (accounts : Table AccountId Account) (r : Request) : Reply × OpenTx :=
  if r.row ∈ t.held then t.serve (accounts.get? r.row) r
  else
    match accounts.get? r.row with
    | none => (.refused (.noAccount r.row), t)
    | some account => (t.lock r.row).serve (some account) r

@[simp] theorem idle_held (t : OpenTx) : t.idle.held = t.held := rfl

@[simp] theorem idle_pending (t : OpenTx) : t.idle.pending = t.pending := rfl

@[simp] theorem idle_blocked (t : OpenTx) : t.idle.blocked = none := rfl

@[simp] theorem lock_held (t : OpenTx) (row : AccountId) :
    (t.lock row).held = t.held ++ [row] := rfl

@[simp] theorem lock_pending (t : OpenTx) (row : AccountId) :
    (t.lock row).pending = t.pending := rfl

@[simp] theorem lock_blocked (t : OpenTx) (row : AccountId) :
    (t.lock row).blocked = t.blocked := rfl

@[simp] theorem wake_held (t : OpenTx) : t.wake.held = t.held := rfl

@[simp] theorem wake_pending (t : OpenTx) : t.wake.pending = t.pending := rfl

@[simp] theorem wake_blocked (t : OpenTx) :
    t.wake.blocked = t.blocked.map fun w => { w with woken := true } := rfl

theorem idle_of_unblocked {t : OpenTx} (h : t.blocked = none) : t.idle = t := by
  cases t
  cases h
  rfl

/-- To serve a request is to answer it or to change one delta, and no more. -/
theorem serve_eq (t : OpenTx) (account : Option Account) (r : Request) :
    t.serve account r = ((t.serve account r).1, t) ∨
      ∃ sum, t.serve account r =
        (.served sum, { t with pending := t.pending.insert r.row sum }) := by
  cases r with
  | query row =>
      refine Or.inl ?_
      cases account with
      | none => rfl
      | some account =>
          simp only [serve]
          split
          · rfl
          · rfl
  | update row delta =>
      simp only [serve]
      split
      · exact Or.inl rfl
      · rename_i sum _
        exact Or.inr ⟨sum, rfl⟩

theorem serve_held (t : OpenTx) (account : Option Account) (r : Request) :
    (t.serve account r).2.held = t.held := by
  rcases serve_eq t account r with h | ⟨sum, h⟩
  · rw [h]
  · rw [h]

theorem serve_blocked (t : OpenTx) (account : Option Account) (r : Request) :
    (t.serve account r).2.blocked = t.blocked := by
  rcases serve_eq t account r with h | ⟨sum, h⟩
  · rw [h]
  · rw [h]

/-- Serving a request adds a delta for its own row at most. -/
theorem serve_pending {t : OpenTx} {account : Option Account} {r : Request} {row : AccountId}
    (h : ((t.serve account r).2.pending.get? row).isSome = true) :
    row = r.row ∨ (t.pending.get? row).isSome = true := by
  rcases serve_eq t account r with heq | ⟨sum, heq⟩
  · rw [heq] at h
    exact Or.inr h
  · rw [heq, Table.get?_insert] at h
    by_cases hr : r.row = row
    · exact Or.inl hr.symm
    · rw [if_neg hr] at h
      exact Or.inr h

theorem serve_ne_waiting (t : OpenTx) (account : Option Account) (r : Request) :
    (t.serve account r).1 ≠ .waiting := by
  cases r with
  | query row =>
      cases account with
      | none => simp [serve]
      | some account =>
          simp only [serve]
          split
          · simp
          · simp
  | update row delta =>
      simp only [serve]
      split
      · simp
      · simp

/-- A refusal to serve is no conflict. -/
theorem serve_refused {t : OpenTx} {account : Option Account} {r : Request} {reason : Refusal}
    (h : (t.serve account r).1 = .refused reason) : reason.isConflict = false := by
  cases r with
  | query row =>
      cases account with
      | none =>
          rw [serve, Reply.refused.injEq] at h
          rw [← h]
          rfl
      | some account =>
          simp only [serve] at h
          split at h
          · rw [Reply.refused.injEq] at h
            rw [← h]
            rfl
          · simp at h
  | update row delta =>
      simp only [serve] at h
      split at h
      · rw [Reply.refused.injEq] at h
        rw [← h]
        rfl
      · simp at h

theorem serve_ne_deadlock (t : OpenTx) (account : Option Account) (r : Request) (tx : TxId)
    (row : AccountId) (holder : TxId) :
    (t.serve account r).1 ≠ .refused (.deadlock tx row holder) := by
  intro hc
  have := serve_refused hc
  simp [Refusal.isConflict] at this

section Alone

variable {accounts : Table AccountId Account}

theorem alone_ne_waiting (t : OpenTx) (r : Request) : (t.alone accounts r).1 ≠ .waiting := by
  rw [alone]
  split
  · exact serve_ne_waiting _ _ _
  · split
    · simp
    · exact serve_ne_waiting _ _ _

theorem alone_blocked (t : OpenTx) (r : Request) :
    (t.alone accounts r).2.blocked = t.blocked := by
  rw [alone]
  split
  · exact serve_blocked _ _ _
  · split
    · rfl
    · exact serve_blocked _ _ _

/-- What is locked stays locked. -/
theorem alone_held {t : OpenTx} {r : Request} {row : AccountId} (h : row ∈ t.held) :
    row ∈ (t.alone accounts r).2.held := by
  rw [alone]
  split
  · rwa [serve_held]
  · split
    · exact h
    · rw [serve_held, lock_held]
      exact List.mem_append_left _ h

/-- Nobody in the way, no conflict. -/
theorem alone_refused {t : OpenTx} {r : Request} {reason : Refusal}
    (h : (t.alone accounts r).1 = .refused reason) : reason.isConflict = false := by
  rw [alone] at h
  split at h
  · exact serve_refused h
  · split at h
    · rw [Reply.refused.injEq] at h
      rw [← h]
      rfl
    · exact serve_refused h

end Alone

end OpenTx

/-- What a call comes to when its transaction has ended. -/
def Call.whenEnded : Call → Outcome
  | .request _ => .replied (.refused .ended)
  | .commit => .refused .ended
  | .rollback => .done

namespace Store

@[simp] theorem put_accounts (s : Store) (tx : TxId) (t : OpenTx) (locks : RowLocks) :
    (s.put tx t locks).accounts = s.accounts := rfl

@[simp] theorem put_locks (s : Store) (tx : TxId) (t : OpenTx) (locks : RowLocks) :
    (s.put tx t locks).locks = locks := rfl

@[simp] theorem put_begun (s : Store) (tx : TxId) (t : OpenTx) (locks : RowLocks) :
    (s.put tx t locks).begun = s.begun := rfl

@[simp] theorem put_conflictsDue (s : Store) (tx : TxId) (t : OpenTx) (locks : RowLocks) :
    (s.put tx t locks).conflictsDue = s.conflictsDue := rfl

@[simp] theorem put_live (s : Store) (tx other : TxId) (t : OpenTx) (locks : RowLocks) :
    (s.put tx t locks).live.get? other = if tx = other then some t else s.live.get? other := by
  rw [put, Table.get?_insert]

/-- Whose record it is, after one has been written. -/
theorem live_put_cases {s : Store} {tx other : TxId} {t o : OpenTx} {locks : RowLocks}
    (ho : (s.put tx t locks).live.get? other = some o) :
    (tx = other ∧ t = o) ∨ (tx ≠ other ∧ s.live.get? other = some o) := by
  rw [put_live] at ho
  by_cases heq : tx = other
  · rw [if_pos heq, Option.some.injEq] at ho
    exact Or.inl ⟨heq, ho⟩
  · rw [if_neg heq] at ho
    exact Or.inr ⟨heq, ho⟩

theorem live_start (s : Store) (tx : TxId) : s.start.2.live.get? tx =
    if s.begun + 1 = tx then some .fresh else s.live.get? tx := by
  rw [start, Table.get?_insert]

/-- Whose record it is, after a transaction has been opened. -/
theorem live_start_cases {s : Store} {tx : TxId} {t : OpenTx}
    (ht : s.start.2.live.get? tx = some t) :
    (s.begun + 1 = tx ∧ .fresh = t) ∨ s.live.get? tx = some t := by
  rw [live_start] at ht
  by_cases heq : s.begun + 1 = tx
  · rw [if_pos heq, Option.some.injEq] at ht
    exact Or.inl ⟨heq, ht⟩
  · rw [if_neg heq] at ht
    exact Or.inr ht

theorem wait?_of_ended {s : Store} {tx : TxId} (hended : s.live.get? tx = none) :
    s.wait? tx = none := by
  rw [wait?, hended]
  rfl

theorem wait?_put (s : Store) (tx : TxId) (t : OpenTx) (locks : RowLocks) :
    (s.put tx t locks).wait? tx = t.blocked := by
  rw [wait?, put_live, if_pos rfl, Option.bind_some]

section Examine

variable (s : Store) (tx : TxId) (t : OpenTx) (r : Request)

/-- How a look at a row ends. -/
inductive Examined : Reply × Store → Prop where
  | absent (habsent : s.accounts.get? r.row = none) :
      Examined (.refused (.noAccount r.row), s.put tx t.idle (s.locks.stopWaiting tx))
  | granted {account : Account} (haccount : s.accounts.get? r.row = some account)
      (hfree : s.locks.holders.get? r.row = none) :
      Examined (((t.idle.lock r.row).serve (some account) r).1,
        s.put tx ((t.idle.lock r.row).serve (some account) r).2 (s.locks.take tx r.row))
  | cycle {account : Account} {holder : TxId} (haccount : s.accounts.get? r.row = some account)
      (hheld : s.locks.holders.get? r.row = some holder)
      (hback : s.locks.wouldDeadlock tx holder = true) :
      Examined (.refused (.deadlock tx r.row holder), s.put tx t.idle (s.locks.stopWaiting tx))
  | waiting {account : Account} {holder : TxId} (haccount : s.accounts.get? r.row = some account)
      (hheld : s.locks.holders.get? r.row = some holder)
      (hfar : s.locks.wouldDeadlock tx holder = false) :
      Examined (.waiting, s.put tx { t with blocked := some ⟨r, false⟩ }
        (s.locks.startWaiting tx r.row))

theorem examined : Examined s tx t r (s.examine tx t r) := by
  rw [examine]
  cases haccount : s.accounts.get? r.row with
  | none => exact .absent haccount
  | some account =>
      simp only [RowLocks.ask]
      cases hheld : s.locks.holders.get? r.row with
      | none => exact .granted haccount hheld
      | some holder =>
          cases hback : s.locks.wouldDeadlock tx holder with
          | true =>
              simp only [hback, ↓reduceIte]
              exact .cycle haccount hheld hback
          | false =>
              simp only [hback, Bool.false_eq_true, ↓reduceIte]
              exact .waiting haccount hheld hback

/-- A look changes nothing but the record of the transaction and the locks. -/
theorem exists_put {s : Store} {tx : TxId} {t : OpenTx} {r : Request} {result : Reply × Store}
    (hlook : Examined s tx t r result) : ∃ t' locks, result.2 = s.put tx t' locks := by
  cases hlook with
  | absent => exact ⟨_, _, rfl⟩
  | granted => exact ⟨_, _, rfl⟩
  | cycle => exact ⟨_, _, rfl⟩
  | waiting => exact ⟨_, _, rfl⟩

/-- What comes of a request, as far as the one who makes it can tell. -/
inductive Answered : Reply × Store → Prop where
  | alone (locks : RowLocks) :
      Answered ((t.idle.alone s.accounts r).1, s.put tx (t.idle.alone s.accounts r).2 locks)
  | cycle (holder : TxId) (locks : RowLocks) :
      Answered (.refused (.deadlock tx r.row holder), s.put tx t.idle locks)
  | waiting (locks : RowLocks) :
      Answered (.waiting, s.put tx { t with blocked := some ⟨r, false⟩ } locks)

variable {s tx t r}

theorem answered_of_examined {result : Reply × Store} (hnew : r.row ∉ t.held)
    (hlook : Examined s tx t r result) : Answered s tx t r result := by
  have halone : t.idle.alone s.accounts r =
      match s.accounts.get? r.row with
      | none => (.refused (.noAccount r.row), t.idle)
      | some account => (t.idle.lock r.row).serve (some account) r := by
    rw [OpenTx.alone, if_neg (show r.row ∉ t.idle.held from hnew)]
  cases hlook with
  | absent habsent =>
      rw [habsent] at halone
      have := @Answered.alone s tx t r (s.locks.stopWaiting tx)
      rwa [halone] at this
  | granted haccount hfree =>
      rw [haccount] at halone
      have := @Answered.alone s tx t r (s.locks.take tx r.row)
      rwa [halone] at this
  | cycle => exact .cycle _ _
  | waiting => exact .waiting _

theorem answered_of_held (hidle : t.blocked = none) (hheld : r.row ∈ t.held) :
    Answered s tx t r ((t.serve (s.accounts.get? r.row) r).1,
      s.put tx (t.serve (s.accounts.get? r.row) r).2 s.locks) := by
  have halone : t.idle.alone s.accounts r = t.serve (s.accounts.get? r.row) r := by
    rw [OpenTx.idle_of_unblocked hidle, OpenTx.alone, if_pos hheld]
  have := @Answered.alone s tx t r s.locks
  rwa [halone] at this

theorem answered_request (hlive : s.live.get? tx = some t) (hidle : t.blocked = none) :
    Answered s tx t r (s.request tx r) := by
  rw [request, hlive]
  by_cases hheld : r.row ∈ t.held
  · simpa only [if_pos hheld] using answered_of_held hidle hheld
  · simpa only [if_neg hheld] using answered_of_examined hheld (examined s tx t r)

theorem answered_poll (hlive : s.live.get? tx = some t) (hwoken : t.blocked = some ⟨r, true⟩)
    (hnew : r.row ∉ t.held) : Answered s tx t r (s.poll tx) := by
  rw [poll, hlive]
  simpa only [hwoken] using answered_of_examined hnew (examined s tx t r)

end Examine

section Ending

variable {s : Store} {tx : TxId} {t : OpenTx}

theorem release_eq (hlive : s.live.get? tx = some t) :
    s.release tx = { s with
      locks := s.locks.release tx t.held
      live := (s.live.erase tx).mapValues fun _ other => other.wake } := by
  rw [release, hlive]

theorem release_of_ended (hlive : s.live.get? tx = none) : s.release tx = s := by
  rw [release, hlive]

@[simp] theorem release_accounts (s : Store) (tx : TxId) :
    (s.release tx).accounts = s.accounts := by
  rw [release]
  split
  · rfl
  · rfl

@[simp] theorem release_begun (s : Store) (tx : TxId) : (s.release tx).begun = s.begun := by
  rw [release]
  split
  · rfl
  · rfl

@[simp] theorem release_conflictsDue (s : Store) (tx : TxId) :
    (s.release tx).conflictsDue = s.conflictsDue := by
  rw [release]
  split
  · rfl
  · rfl

theorem live_release (hlive : s.live.get? tx = some t) (other : TxId) :
    (s.release tx).live.get? other =
      if tx = other then none else (s.live.get? other).map OpenTx.wake := by
  rw [release_eq hlive, Table.get?_mapValues, Table.get?_erase]
  by_cases h : tx = other
  · rw [if_pos h, if_pos h]
    rfl
  · rw [if_neg h, if_neg h]

theorem ended_release (s : Store) (tx : TxId) : (s.release tx).live.get? tx = none := by
  cases hlive : s.live.get? tx with
  | none => rw [release_of_ended hlive, hlive]
  | some t => rw [live_release hlive, if_pos rfl]

/-- Whoever is left after the end of a transaction was there before, and has been woken. -/
theorem live_release_cases (hlive : s.live.get? tx = some t) {other : TxId} {o : OpenTx}
    (ho : (s.release tx).live.get? other = some o) :
    tx ≠ other ∧ ∃ o₀, s.live.get? other = some o₀ ∧ o₀.wake = o := by
  rw [live_release hlive] at ho
  by_cases heq : tx = other
  · simp [heq] at ho
  · rw [if_neg heq] at ho
    exact ⟨heq, Option.map_eq_some_iff.1 ho⟩

theorem release_locks (hlive : s.live.get? tx = some t) :
    (s.release tx).locks = s.locks.release tx t.held := by
  rw [release_eq hlive]

/-- Whoever still waits for a row waited for it before. -/
theorem waits_of_release (hlive : s.live.get? tx = some t) {other : TxId} {row : AccountId}
    (hw : (s.release tx).locks.waits.get? other = some row) :
    tx ≠ other ∧ s.locks.waits.get? other = some row := by
  rw [release_locks hlive, RowLocks.waits_release] at hw
  by_cases heq : tx = other
  · simp [heq] at hw
  · rw [if_neg heq] at hw
    exact ⟨heq, hw⟩

/-- How an attempt to commit ends. -/
inductive Committed (s : Store) (tx : TxId) (t : OpenTx) : Except Refusal Unit × Store → Prop where
  | conflict {due : Nat} (hdue : s.conflictsDue = due + 1) :
      Committed s tx t (.error .serialization, { s.release tx with conflictsDue := due })
  | rejected {e : Refusal} (hdue : s.conflictsDue = 0)
      (hall : applyAll s.accounts t.pending.entries = .error e) :
      Committed s tx t (.error e, s.release tx)
  | applied {accounts : Table AccountId Account} (hdue : s.conflictsDue = 0)
      (hall : applyAll s.accounts t.pending.entries = .ok accounts) :
      Committed s tx t (.ok (), { s.release tx with accounts })

theorem committed (hlive : s.live.get? tx = some t) : Committed s tx t (s.commit tx) := by
  rw [commit, hlive]
  cases hdue : s.conflictsDue with
  | succ due => exact .conflict hdue
  | zero =>
      cases hall : applyAll s.accounts t.pending.entries with
      | error e =>
          simp only [hall]
          exact .rejected hdue hall
      | ok accounts =>
          simp only [hall]
          exact .applied hdue hall

theorem commit_of_ended (hlive : s.live.get? tx = none) : s.commit tx = (.error .ended, s) := by
  rw [commit, hlive]

theorem ended_commit (s : Store) (tx : TxId) : (s.commit tx).2.live.get? tx = none := by
  have hrel := ended_release s tx
  cases hlive : s.live.get? tx with
  | none => rw [commit_of_ended hlive, hlive]
  | some t =>
      have hend := committed hlive
      generalize s.commit tx = result at hend
      cases hend with
      | conflict => exact hrel
      | rejected => exact hrel
      | applied => exact hrel

end Ending

/-- What an event can do, and what it answers. -/
inductive Stepped (s : Store) : Event → Option Answer × Store → Prop where
  /-- The event is impossible where it stands. -/
  | nothing (e : Event) : Stepped s e (none, s)
  | started : Stepped s .start (none, s.start.2)
  /-- The transaction has ended long since. -/
  | closed {tx : TxId} (hended : s.live.get? tx = none) (hle : tx ≤ s.begun) (c : Call) :
      Stepped s (.call tx c) (some ⟨tx, c, c.whenEnded⟩, s)
  /-- The row is held already. -/
  | served {tx : TxId} {t : OpenTx} {r : Request} (hlive : s.live.get? tx = some t)
      (hidle : t.blocked = none) (hheld : r.row ∈ t.held) :
      Stepped s (.call tx (.request r))
        (some ⟨tx, .request r, .replied (t.serve (s.accounts.get? r.row) r).1⟩,
          s.put tx (t.serve (s.accounts.get? r.row) r).2 s.locks)
  /-- A new request looks at its row. -/
  | asked {tx : TxId} {t : OpenTx} {r : Request} {result : Reply × Store}
      (hlive : s.live.get? tx = some t) (hidle : t.blocked = none) (hnew : r.row ∉ t.held)
      (hlook : Examined s tx t r result) :
      Stepped s (.call tx (.request r)) (some ⟨tx, .request r, .replied result.1⟩, result.2)
  /-- A call that was woken looks at its row again. -/
  | polled {tx : TxId} {t : OpenTx} {r : Request} {result : Reply × Store}
      (hlive : s.live.get? tx = some t) (hwoken : t.blocked = some ⟨r, true⟩)
      (hlook : Examined s tx t r result) :
      Stepped s (.poll tx) (some ⟨tx, .request r, .replied result.1⟩, result.2)
  | abandoned {tx : TxId} {t : OpenTx} (hlive : s.live.get? tx = some t) :
      Stepped s (.abandon tx) (none, s.put tx t.idle s.locks)
  | dropped {tx : TxId} {t : OpenTx} (hlive : s.live.get? tx = some t) :
      Stepped s (.drop tx) (none, s.release tx)
  | rolledBack {tx : TxId} {t : OpenTx} (hlive : s.live.get? tx = some t)
      (hidle : t.blocked = none) :
      Stepped s (.call tx .rollback) (some ⟨tx, .rollback, .done⟩, s.release tx)
  | committed {tx : TxId} {t : OpenTx} {result : Except Refusal Unit × Store}
      (hlive : s.live.get? tx = some t) (hidle : t.blocked = none)
      (hend : Committed s tx t result) :
      Stepped s (.call tx .commit) (some ⟨tx, .commit, .ofResult result.1⟩, result.2)
  | inserted (id : AccountId) (balance : Decimal) :
      Stepped s (.insert id balance) (none, s.insert id balance)
  | injected (conflicts : Nat) : Stepped s (.inject conflicts) (none, s.inject conflicts)

theorem isBlocked_eq_false {s : Store} {tx : TxId} {t : OpenTx}
    (hlive : s.live.get? tx = some t) : s.isBlocked tx = false ↔ t.blocked = none := by
  rw [isBlocked, wait?, hlive]
  simp

-- A transaction that waits or is yet to be opened makes no calls. To those that have ended every
-- call is answered in the same way, so only for the others does it matter what is asked.
theorem stepped_call (s : Store) (tx : TxId) (c : Call) :
    Stepped s (.call tx c) (s.step (.call tx c)) := by
  rw [step]
  cases hb : s.isBlocked tx || decide (s.begun < tx) with
  | true => exact .nothing _
  | false =>
      rw [Bool.or_eq_false_iff, decide_eq_false_iff_not] at hb
      rcases hb with ⟨hb, hle⟩
      simp only [Bool.false_eq_true, ↓reduceIte]
      cases hlive : s.live.get? tx with
      | none =>
          cases c with
          | request r =>
              rw [call, request, hlive]
              exact .closed hlive (Nat.not_lt.1 hle) _
          | commit =>
              rw [call, commit_of_ended hlive]
              exact .closed hlive (Nat.not_lt.1 hle) _
          | rollback =>
              rw [call, release_of_ended hlive]
              exact .closed hlive (Nat.not_lt.1 hle) _
      | some t =>
          have hidle := (isBlocked_eq_false hlive).1 hb
          cases c with
          | request r =>
              rw [call, request, hlive]
              by_cases hheld : r.row ∈ t.held
              · simp only [if_pos hheld]
                exact .served hlive hidle hheld
              · simp only [if_neg hheld]
                exact .asked hlive hidle hheld (examined s tx t r)
          | commit => exact .committed hlive hidle (Store.committed hlive)
          | rollback => exact .rolledBack hlive hidle

theorem stepped (s : Store) (e : Event) : Stepped s e (s.step e) := by
  cases e with
  | start => exact .started
  | call tx c => exact stepped_call s tx c
  | poll tx =>
      rw [step, wait?]
      cases hlive : s.live.get? tx with
      | none => exact .nothing _
      | some t =>
          cases hb : t.blocked with
          | none =>
              simp only [Option.bind_some, hb]
              exact .nothing _
          | some w =>
              rcases w with ⟨r, woken⟩
              cases woken with
              | false =>
                  simp only [Option.bind_some, hb]
                  exact .nothing _
              | true =>
                  have hpoll : s.poll tx = s.examine tx t r := by
                    rw [poll, hlive]
                    simp only [hb]
                  simp only [Option.bind_some, hb, hpoll]
                  exact .polled hlive hb (examined s tx t r)
  | abandon tx =>
      rw [step, abandon]
      cases hlive : s.live.get? tx with
      | none => exact .nothing _
      | some t => exact .abandoned hlive
  | drop tx =>
      rw [step]
      cases hlive : s.live.get? tx with
      | none =>
          rw [release_of_ended hlive]
          exact .nothing _
      | some t => exact .dropped hlive
  | insert id balance => exact .inserted id balance
  | inject conflicts => exact .injected conflicts

section Apply

variable {accounts accounts' : Table AccountId Account}

/-- An objection to deltas is no conflict. -/
theorem isConflict_applyAll {l : List (AccountId × Decimal)} {reason : Refusal}
    (h : applyAll accounts l = .error reason) : reason.isConflict = false := by
  -- Each delta meets the accounts as the ones before it have left them.
  induction l generalizing accounts with
  | nil => simp [applyAll] at h
  | cons e rest ih =>
      rw [applyAll] at h
      split at h
      · exact ih h
      · rename_i account _
        cases hnew : applied account e.1 e.2 with
        | error objection =>
            rw [hnew, Except.error.injEq] at h
            rw [← h]
            rw [applied] at hnew
            split at hnew
            · rw [Except.error.injEq] at hnew
              rw [← hnew]
              rfl
            · split at hnew
              · rw [Except.error.injEq] at hnew
                rw [← hnew]
                rfl
              · simp at hnew
        | ok new =>
            rw [hnew] at h
            exact ih h

/-- Applying deltas one by one can be cut in two. -/
theorem applyAll_cons {row : AccountId} {delta : Decimal} {rest : List (AccountId × Decimal)}
    (h : applyAll accounts ((row, delta) :: rest) = .ok accounts') :
    (accounts.get? row = none ∧ applyAll accounts rest = .ok accounts') ∨
      ∃ old new, accounts.get? row = some old ∧ applied old row delta = .ok new ∧
        applyAll (accounts.insert row new) rest = .ok accounts' := by
  rw [applyAll] at h
  cases hold : accounts.get? row with
  | none =>
      rw [hold] at h
      exact Or.inl ⟨rfl, h⟩
  | some old =>
      rw [hold] at h
      cases hnew : applied old row delta with
      | error e => simp [hnew] at h
      | ok new =>
          simp only [hnew] at h
          exact Or.inr ⟨old, new, rfl, hnew, h⟩

/-- The new balance is the sum, if there is one. -/
theorem balance_applied {old new : Account} {row : AccountId} {delta next : Decimal}
    (h : applied old row delta = .ok new) (hsum : old.balance.add? delta = some next) :
    new.balance = next := by
  rw [applied, hsum] at h
  simp only at h
  split at h
  · simp at h
  · rw [Except.ok.injEq] at h
    rw [← h]

/-- No account comes or goes when deltas are applied. -/
theorem isSome_applyAll {l : List (AccountId × Decimal)}
    (h : applyAll accounts l = .ok accounts') (row : AccountId) :
    (accounts'.get? row).isSome = (accounts.get? row).isSome := by
  induction l generalizing accounts with
  | nil =>
      rw [applyAll, Except.ok.injEq] at h
      rw [h]
  | cons e rest ih =>
      rcases applyAll_cons h with ⟨_, hrest⟩ | ⟨old, new, hold, _, hrest⟩
      · exact ih hrest
      · rw [ih hrest, Table.get?_insert]
        by_cases hr : e.1 = row
        · rw [if_pos hr, ← hr, hold]
          rfl
        · rw [if_neg hr]

/-- An account that no delta is for stays as it is. -/
theorem get?_applyAll_other {l : List (AccountId × Decimal)}
    (h : applyAll accounts l = .ok accounts') {row : AccountId} (hrow : ∀ e ∈ l, e.1 ≠ row) :
    accounts'.get? row = accounts.get? row := by
  induction l generalizing accounts with
  | nil =>
      rw [applyAll, Except.ok.injEq] at h
      rw [h]
  | cons e rest ih =>
      have hrest : ∀ e' ∈ rest, e'.1 ≠ row := fun e' he' => hrow e' (List.mem_cons_of_mem _ he')
      rcases applyAll_cons h with ⟨_, hok⟩ | ⟨old, new, _, _, hok⟩
      · exact ih hok hrest
      · rw [ih hok hrest, Table.get?_insert, if_neg (hrow e List.mem_cons_self)]

/-- The account that a delta is for has the new balance and one version more. -/
theorem get?_applyAll {l : List (AccountId × Decimal)}
    (hasc : l.Pairwise fun a b => a.1 < b.1) (h : applyAll accounts l = .ok accounts')
    {row : AccountId} {delta : Decimal} (hmem : (row, delta) ∈ l) {old : Account}
    (hold : accounts.get? row = some old) :
    ∃ new, applied old row delta = .ok new ∧ accounts'.get? row = some new := by
  induction l generalizing accounts with
  | nil => simp at hmem
  | cons e rest ih =>
      rcases List.pairwise_cons.1 hasc with ⟨hfirst, hasc'⟩
      -- No later delta is for the same row, because they are in ascending order.
      rcases List.mem_cons.1 hmem with rfl | hrest
      · have hother : ∀ e' ∈ rest, e'.1 ≠ row := fun e' he' => (Int.ne_of_lt (hfirst e' he')).symm
        rcases applyAll_cons h with ⟨hnone, _⟩ | ⟨old', new, hold', hnew, hok⟩
        · rw [hold] at hnone
          simp at hnone
        · rw [hold, Option.some.injEq] at hold'
          refine ⟨new, hold' ▸ hnew, ?_⟩
          rw [get?_applyAll_other hok hother, Table.get?_insert, if_pos rfl]
      · have hne : e.1 ≠ row := Int.ne_of_lt (hfirst _ hrest)
        rcases applyAll_cons h with ⟨_, hok⟩ | ⟨old', new, _, _, hok⟩
        · exact ih hasc' hok hrest hold
        · exact ih hasc' hok hrest (by rw [Table.get?_insert, if_neg hne, hold])

end Apply

end Store

end RowLedger
