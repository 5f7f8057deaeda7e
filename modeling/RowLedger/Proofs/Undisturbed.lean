import RowLedger.Proofs.Exact
import RowLedger.Proofs.OrderedWork

/-!
# Work that nobody disturbs

A transaction that has the store to itself, as far as the rows go that it asks
for. Then nothing is left open: each of its requests is answered at once, and
what the work comes to can be computed from the accounts as they are. Other
transactions may be open meanwhile, and the rows that they hold stay theirs.

While the transaction is open, the store is the one in which it was opened
together with its record (`Store.With`), and a unit of work leads from one record
to another (`Work.EndsIn`). When it has ended, nothing is left of it but what it
has committed (`Store.Without`).

## Main definitions

* `Decimal.shown`: An amount as a query shows it.
* `Store.With`: A store in which one transaction has come this far.
* `Store.Without`: A store in which that transaction has ended.
* `Work.EndsIn`: Where work leads that nobody disturbs.

## Theorems

* `with_ask_new`, `with_ask_absent`, `with_ask_held`: Requests are answered.
* `without_release`, `without_commit`: The two ways to end.
* `run_settle`: Work one after another.
* `endsIn_bind`, `endsIn_fail`: The same for work that leads somewhere.
* `endsIn_query`, `endsIn_query_absent`, `endsIn_update`: The calls of a
  transaction.
-/

namespace RowLedger

namespace Decimal

/-- An amount as a query shows it: a zero has no places any longer. -/
def shown (d : Decimal) : Decimal := if d.isZero then .zero else d

theorem add?_zero (d : Decimal) : d.add? .zero = some d.shown := by
  cases h : d.isZero with
  | true => rw [add?_zero_left h, shown, h, if_pos rfl]
  | false => rw [add?_zero_right h rfl, shown, h, if_neg Bool.false_ne_true]

/-- What is shown adds up as the amount does. -/
theorem add?_shown (d delta : Decimal) : d.shown.add? delta = d.add? delta := by
  rw [shown]
  cases h : d.isZero with
  | true => rw [if_pos rfl, add?_zero_left rfl, add?_zero_left h]
  | false => rw [if_neg Bool.false_ne_true]

end Decimal

namespace Store

/-- A store in which one transaction has come as far as its record says, and nothing else has
happened since it was opened in the first store. -/
structure With (s₀ : Store) (tx : TxId) (t : OpenTx) (s : Store) : Prop where
  accounts : s.accounts = s₀.accounts
  begun : s.begun = s₀.begun
  due : s.conflictsDue = s₀.conflictsDue
  record : s.live.get? tx = some t
  idle : t.blocked = none
  holders : ∀ row, s.locks.holders.get? row =
    if row ∈ t.held then some tx else s₀.locks.holders.get? row
  /-- What the transaction has locked nobody held before. -/
  free : ∀ row ∈ t.held, s₀.locks.holders.get? row = none

/-- A store in which the transaction has ended. Of what it was about the accounts are left, and
the conflicts that are still due. -/
structure Without (s₀ : Store) (tx : TxId) (accounts : Table AccountId Account) (due : Nat)
    (s : Store) : Prop where
  accounts : s.accounts = accounts
  begun : s.begun = s₀.begun
  due : s.conflictsDue = due
  ended : s.live.get? tx = none
  holders : ∀ row, s.locks.holders.get? row = s₀.locks.holders.get? row

theorem with_start (s : Store) : s.start.2.With s.start.1 .fresh s.start.2 where
  accounts := rfl
  begun := rfl
  due := rfl
  record := (live_start s _).trans (if_pos rfl)
  idle := rfl
  holders := by simp [OpenTx.fresh]
  free := by simp [OpenTx.fresh]

section Asking

variable {s₀ s : Store} {tx : TxId} {t t' : OpenTx} {r : Request}

theorem With.unblocked (h : s₀.With tx t s) : s.isBlocked tx = false :=
  (isBlocked_eq_false h.record).2 h.idle

theorem With.put (h : s₀.With tx t s) {locks : RowLocks} (hidle : t'.blocked = none)
    (hholders : ∀ row, locks.holders.get? row =
      if row ∈ t'.held then some tx else s₀.locks.holders.get? row)
    (hfree : ∀ row ∈ t'.held, s₀.locks.holders.get? row = none) :
    s₀.With tx t' (s.put tx t' locks) where
  accounts := h.accounts
  begun := h.begun
  due := h.due
  record := by rw [put_live, if_pos rfl]
  idle := hidle
  holders := hholders
  free := hfree

/-- A request for a new row that nobody holds. -/
theorem with_ask_new (h : s₀.With tx t s) (hnew : r.row ∉ t.held)
    (hfree : s₀.locks.holders.get? r.row = none) {account : Account}
    (haccount : s₀.accounts.get? r.row = some account) :
    ∃ s', s.ask tx r = (((t.lock r.row).serve (some account) r).1, s') ∧
      s₀.With tx ((t.lock r.row).serve (some account) r).2 s' := by
  have hnone : s.locks.holders.get? r.row = none := by
    rw [h.holders, if_neg hnew, hfree]
  have hheld : ((t.lock r.row).serve (some account) r).2.held = t.held ++ [r.row] :=
    OpenTx.serve_held ..
  have hidle : ((t.lock r.row).serve (some account) r).2.blocked = none :=
    (OpenTx.serve_blocked ..).trans h.idle
  rw [ask, h.unblocked, if_neg Bool.false_ne_true, request, h.record]
  simp only [if_neg hnew]
  rw [examine, h.accounts, haccount]
  simp only [RowLocks.ask, hnone, OpenTx.idle_of_unblocked h.idle]
  refine ⟨_, rfl, h.put hidle ?_ ?_⟩
  · intro row
    rw [RowLocks.take, Table.get?_insert, hheld, h.holders]
    by_cases hrow : r.row = row
    · simp [hrow]
    · simp [hrow, show row ≠ r.row from fun hc => hrow hc.symm]
  · intro row hrow
    rw [hheld, List.mem_append, List.mem_singleton] at hrow
    rcases hrow with hrow | rfl
    · exact h.free row hrow
    · exact hfree

/-- A request for a row that is not there. -/
theorem with_ask_absent (h : s₀.With tx t s) (hnew : r.row ∉ t.held)
    (habsent : s₀.accounts.get? r.row = none) :
    ∃ s', s.ask tx r = (.refused (.noAccount r.row), s') ∧ s₀.With tx t s' := by
  rw [ask, h.unblocked, if_neg Bool.false_ne_true, request, h.record]
  simp only [if_neg hnew]
  rw [examine, h.accounts, habsent, OpenTx.idle_of_unblocked h.idle]
  exact ⟨_, rfl, h.put h.idle h.holders h.free⟩

/-- A request for a row that is held already. -/
theorem with_ask_held (h : s₀.With tx t s) (hheld : r.row ∈ t.held) :
    ∃ s', s.ask tx r = ((t.serve (s₀.accounts.get? r.row) r).1, s') ∧
      s₀.With tx (t.serve (s₀.accounts.get? r.row) r).2 s' := by
  rw [ask, h.unblocked, if_neg Bool.false_ne_true, request, h.record]
  simp only [if_pos hheld]
  rw [h.accounts]
  refine ⟨_, rfl, h.put ((OpenTx.serve_blocked ..).trans h.idle) ?_ ?_⟩
  · intro row
    rw [OpenTx.serve_held]
    exact h.holders row
  · intro row hrow
    rw [OpenTx.serve_held] at hrow
    exact h.free row hrow

theorem without_release (h : s₀.With tx t s) :
    s₀.Without tx s₀.accounts s₀.conflictsDue (s.release tx) where
  accounts := (release_accounts s tx).trans h.accounts
  begun := (release_begun s tx).trans h.begun
  due := (release_conflictsDue s tx).trans h.due
  ended := ended_release s tx
  holders row := by
    rw [release_locks h.record, RowLocks.holder_release, h.holders]
    by_cases hrow : row ∈ t.held
    · rw [if_pos hrow, if_pos ⟨hrow, rfl⟩, h.free row hrow]
    · rw [if_neg hrow, if_neg fun hc => hrow hc.1]

/-- A commit meets a conflict that is due, or it does what the deltas say. -/
theorem without_commit (h : s₀.With tx t s) {accounts : Table AccountId Account}
    (hall : applyAll s₀.accounts t.pending.entries = .ok accounts) :
    (∃ due, s₀.conflictsDue = due + 1 ∧ (s.commit tx).1 = .error .serialization ∧
        s₀.Without tx s₀.accounts due (s.commit tx).2) ∨
      (s₀.conflictsDue = 0 ∧ (s.commit tx).1 = .ok () ∧
        s₀.Without tx accounts 0 (s.commit tx).2) := by
  have hrel := without_release h
  have hend := committed h.record
  generalize s.commit tx = result at hend
  cases hend with
  | @conflict due hdue =>
      rw [h.due] at hdue
      exact Or.inl ⟨due, hdue, rfl, hrel.accounts, hrel.begun, rfl, hrel.ended, hrel.holders⟩
  | rejected _ hbad =>
      rw [h.accounts, hall] at hbad
      simp at hbad
  | applied hdue hok =>
      rw [h.accounts, hall, Except.ok.injEq] at hok
      rw [h.due] at hdue
      exact Or.inr ⟨hdue, rfl, hok.symm, hrel.begun, hrel.due.trans hdue, hrel.ended,
        hrel.holders⟩

end Asking

end Store

namespace Work

variable {α β : Type} {tx : TxId}

-- Induction on the work. Work that stops on the way has not ended, so these cases are no cases.
/-- Work that has ended goes on with its outcome. -/
theorem run_settle {w : Work α} {f : Except Failure α → Work β} {s s' : Service}
    {outcome : Except Failure α} (h : w.run tx s = (.ended outcome, s')) :
    (w.settle f).run tx s = (f outcome).run tx s' := by
  induction w generalizing s with
  | done _ =>
      rw [run, Prod.mk.injEq, Progress.ended.injEq] at h
      rw [settle, h.1, h.2]
  | request r next ih =>
      rw [run] at h
      rw [settle, run]
      cases hreply : s.request tx r with
      | mk answer s'' =>
          cases answer with
          | none => simp [hreply] at h
          | some answer =>
              simp only [hreply] at h
              exact ih answer h
  | commit next ih => exact ih _ h
  | rollback next ih => exact ih _ h
  | pause millis next => simp [run] at h
  | tell notice next ih => exact ih h
  | note n next ih => exact ih h
  | crash => simp [run] at h

/-- Work that nobody disturbs leads to this outcome, and its transaction from one record to
another. -/
def EndsIn (s₀ : Store) (tx : TxId) (w : Work α) (t : OpenTx) (outcome : Except Failure α)
    (t' : OpenTx) : Prop :=
  ∀ s : Service, s.plan = .empty → s₀.With tx t s.store →
    ∃ s', w.run tx s = (.ended outcome, s') ∧ s'.plan = .empty ∧ s₀.With tx t' s'.store

variable {s₀ : Store} {t t' t'' : OpenTx}

theorem endsIn_done (outcome : Except Failure α) (t : OpenTx) :
    (done outcome).EndsIn s₀ tx t outcome t :=
  fun s hplan hwith => ⟨s, rfl, hplan, hwith⟩

theorem endsIn_bind {w : Work α} {f : α → Work β} {a : α} {outcome : Except Failure β}
    (hw : w.EndsIn s₀ tx t (.ok a) t') (hf : (f a).EndsIn s₀ tx t' outcome t'') :
    (w >>= f).EndsIn s₀ tx t outcome t'' := by
  intro s hplan hwith
  rcases hw s hplan hwith with ⟨s', hrun, hplan', hwith'⟩
  rcases hf s' hplan' hwith' with ⟨s'', hrun', hlast⟩
  exact ⟨s'', (run_settle hrun).trans hrun', hlast⟩

/-- A failure is the end of it all. -/
theorem endsIn_fail {w : Work α} {f : α → Work β} {e : Failure}
    (hw : w.EndsIn s₀ tx t (.error e) t') : (w >>= f).EndsIn s₀ tx t (.error e) t' := by
  intro s hplan hwith
  rcases hw s hplan hwith with ⟨s', hrun, hlast⟩
  exact ⟨s', run_settle hrun, hlast⟩

theorem endsIn_say (notice : Notice) (t : OpenTx) : (say notice).EndsIn s₀ tx t (.ok ()) t :=
  fun _ hplan hwith => ⟨_, rfl, hplan, hwith⟩

/-- A request that is answered whatever the service has told the log. -/
theorem endsIn_ask {r : Request} {reply : Reply} {answer : Except StoreFault Decimal}
    {outcome : Except Failure Decimal} (hanswer : reply.toAnswer = some answer)
    (houtcome : ofAnswer answer = .done outcome)
    (hask : ∀ s, s₀.With tx t s → ∃ s', s.ask tx r = (reply, s') ∧ s₀.With tx t' s') :
    (ask r).EndsIn s₀ tx t outcome t' := by
  intro s hplan hwith
  rcases hask s.store hwith with ⟨store, hreply, hwith'⟩
  have hstore := Service.request_store s tx r
  have htold := Service.request_answer s tx r
  have hplan' := (Service.request_plan s tx r).trans hplan
  rw [hreply] at hstore htold
  rw [ask, run]
  generalize s.request tx r = result at hstore htold hplan'
  rcases result with ⟨told, s'⟩
  simp only at hstore htold hplan'
  rw [htold, hanswer]
  refine ⟨s', ?_, hplan', hstore ▸ hwith'⟩
  change run tx (ofAnswer answer) s' = (.ended outcome, s')
  rw [houtcome, run]

theorem endsIn_served {r : Request} {amount : Decimal}
    (hask : ∀ s, s₀.With tx t s → ∃ s', s.ask tx r = (.served amount, s') ∧ s₀.With tx t' s') :
    (ask r).EndsIn s₀ tx t (.ok amount) t' := by
  have hanswer : (Reply.served amount).toAnswer = some (.ok amount) := rfl
  exact endsIn_ask hanswer rfl hask

/-- A query of a new row that nobody holds. -/
theorem endsIn_query {row : AccountId} {account : Account} (hnew : row ∉ t.held)
    (hpending : t.pending.get? row = none) (hfree : s₀.locks.holders.get? row = none)
    (haccount : s₀.accounts.get? row = some account) :
    (query row).EndsIn s₀ tx t (.ok account.balance.shown) (t.lock row) := by
  have hserve : (t.lock row).serve (some account) (.query row) =
      (.served account.balance.shown, t.lock row) := by
    have hdelta : (t.lock row).delta row = .zero := by
      rw [OpenTx.delta, OpenTx.lock_pending, hpending]
      rfl
    simp only [OpenTx.serve, hdelta, Decimal.add?_zero]
  refine endsIn_served fun s hwith => ?_
  rcases Store.with_ask_new hwith (r := .query row) hnew hfree haccount with ⟨s', hask, hwith'⟩
  simp only [Request.row, hserve] at hask hwith'
  exact ⟨s', hask, hwith'⟩

theorem endsIn_query_absent {row : AccountId} (hnew : row ∉ t.held)
    (habsent : s₀.accounts.get? row = none) :
    (query row).EndsIn s₀ tx t (.error (.accountNotFound row)) t :=
  endsIn_ask rfl rfl fun _ hwith => Store.with_ask_absent hwith (r := .query row) hnew habsent

/-- The first update of a row that is held. -/
theorem endsIn_update {row : AccountId} {delta : Decimal} (hheld : row ∈ t.held)
    (hpending : t.pending.get? row = none) :
    (update row delta).EndsIn s₀ tx t (.ok ())
      { t with pending := t.pending.insert row delta } := by
  have hserve : t.serve (s₀.accounts.get? row) (.update row delta) =
      (.served delta, { t with pending := t.pending.insert row delta }) := by
    have halone : t.alone s₀.accounts (.update row delta) =
        (.served delta, { t with pending := t.pending.insert row delta }) :=
      OpenTx.alone_update_held hheld hpending
    rwa [OpenTx.alone, if_pos (show (Request.update row delta).row ∈ t.held from hheld)] at halone
  have hask : (ask (.update row delta)).EndsIn s₀ tx t (.ok delta)
      { t with pending := t.pending.insert row delta } := by
    refine endsIn_served fun s hwith => ?_
    rcases Store.with_ask_held hwith (r := .update row delta) hheld with ⟨s', hask, hwith'⟩
    simp only [Request.row, hserve] at hask hwith'
    exact ⟨s', hask, hwith'⟩
  exact endsIn_bind hask (endsIn_done _ _)

end Work

end RowLedger
