import RowLedger.Proofs.Tasks
import RowLedger.Proofs.Undisturbed
import RowLedger.Proofs.Victims
import RowLedger.Proofs.Walks

/-!
# What comes of a request

A request that asks for a new row, in each of the states that the row can be
in, and what is different afterwards for the one who asks and for those who
look on. A transaction that ends tells what its deltas have come to: that is
decided by the accounts and by the conflicts that are due, whoever else is
around. Work goes on from a request with its answer, in one turn or in a run.

## Main definitions

* `Store.verdict`, `Store.outcome`, `Store.settledAccounts`: What deltas come
  to when they are committed.
* `Work.Calls`: Work that calls the store next.
* `Traffic.Exhausted`: Nobody can go on.

## Theorems

* `ask_query_free`, `ask_taken`, `ask_cycle`, `ask_unwoken`,
  `ask_update_held`: What comes of a request.
* `commit_eq_verdict`: What comes of a commit.
* `outcome_ne_deadlock`: A commit is not refused for a cycle.
* `live_of_step_other`, `waits_step_other`: What others leave behind.
* `run_step`, `exists_advances`: Runs, step by step and turn by turn.
-/

namespace RowLedger

theorem Refusal.failure_eq_deadlock {reason : Refusal} {text : String}
    (h : Failure.ofStoreFault reason.toFault = .conflict (.deadlock text)) :
    ∃ tx row holder, reason = .deadlock tx row holder := by
  suffices hfault : reason.toFault = .conflict deadlockCode text from Refusal.eq_deadlock hfault
  cases hfault : reason.toFault with
  | conflict => simpa [hfault, Failure.ofStoreFault, StoreFault.deadlock] using h
  | _ => simp [hfault, Failure.ofStoreFault] at h

namespace Store

variable {s : Store} {e : Event} {tx : TxId} {t o : OpenTx} {r : Request} {row : AccountId}

section Asking

variable (hlive : s.live.get? tx = some t)
include hlive

/-- A new call looks at its row, and so does one that has been woken. -/
theorem ask_eq_examine (hnew : r.row ∉ t.held)
    (hready : t.blocked = none ∨ t.blocked = some ⟨r, true⟩) :
    s.ask tx r = s.examine tx t r := by
  rcases hready with hidle | hwoken
  · rw [ask, (isBlocked_eq_false hlive).2 hidle, if_neg Bool.false_ne_true, request, hlive]
    simp only [if_neg hnew]
  · have hblocked : s.isBlocked tx = true := by
      rw [isBlocked, wait?, hlive, Option.bind_some, hwoken]
      rfl
    rw [ask, if_pos hblocked, poll, hlive]
    simp only [hwoken]

/-- A call that has not been woken waits on. -/
theorem ask_unwoken (hblocked : t.blocked = some ⟨r, false⟩) : s.ask tx r = (.waiting, s) := by
  have hwaits : s.isBlocked tx = true := by
    rw [isBlocked, wait?, hlive, Option.bind_some, hblocked]
    rfl
  rw [ask, if_pos hwaits, poll, hlive]
  simp only [hblocked]

/-- The first query of a row that nobody holds. -/
theorem ask_query_free (hnew : row ∉ t.held) (hpending : t.pending.get? row = none)
    (hready : t.blocked = none ∨ t.blocked = some ⟨.query row, true⟩)
    (hthere : (s.accounts.get? row).isSome = true) (hfree : s.locks.holders.get? row = none) :
    ∃ amount, s.ask tx (.query row) =
      (.served amount, s.put tx (t.idle.lock row) (s.locks.take tx row)) := by
  rcases Option.isSome_iff_exists.1 hthere with ⟨account, haccount⟩
  have hdelta : (t.idle.lock row).delta row = .zero := by
    rw [OpenTx.delta, OpenTx.lock_pending, OpenTx.idle_pending, hpending]
    rfl
  have hserve : (t.idle.lock row).serve (some account) (.query row) =
      (.served account.balance.shown, t.idle.lock row) := by
    simp only [OpenTx.serve, hdelta, Decimal.add?_zero]
  refine ⟨account.balance.shown, ?_⟩
  rw [ask_eq_examine hlive (r := .query row) hnew hready, examine]
  simp only [Request.row, haccount, RowLocks.ask, hfree, hserve]

/-- A row that somebody holds who does not wait for the one who asks. -/
theorem ask_taken (hnew : r.row ∉ t.held)
    (hready : t.blocked = none ∨ t.blocked = some ⟨r, true⟩)
    (hthere : (s.accounts.get? r.row).isSome = true) {holder : TxId}
    (hheld : s.locks.holders.get? r.row = some holder)
    (hfar : s.locks.wouldDeadlock tx holder = false) :
    s.ask tx r = (.waiting, s.put tx { t with blocked := some ⟨r, false⟩ }
      (s.locks.startWaiting tx r.row)) := by
  rcases Option.isSome_iff_exists.1 hthere with ⟨account, haccount⟩
  rw [ask_eq_examine hlive hnew hready, examine]
  simp only [haccount, RowLocks.ask, hheld, hfar, Bool.false_eq_true, ↓reduceIte]

/-- A row whose holder waits for the one who asks. -/
theorem ask_cycle (hnew : r.row ∉ t.held)
    (hready : t.blocked = none ∨ t.blocked = some ⟨r, true⟩)
    (hthere : (s.accounts.get? r.row).isSome = true) {holder : TxId}
    (hheld : s.locks.holders.get? r.row = some holder)
    (hback : s.locks.wouldDeadlock tx holder = true) :
    s.ask tx r = (.refused (.deadlock tx r.row holder),
      s.put tx t.idle (s.locks.stopWaiting tx)) := by
  rcases Option.isSome_iff_exists.1 hthere with ⟨account, haccount⟩
  rw [ask_eq_examine hlive hnew hready, examine]
  simp only [haccount, RowLocks.ask, hheld, hback, ↓reduceIte]

/-- The first update of a row that is held. -/
theorem ask_update_held {delta : Decimal} (hidle : t.blocked = none) (hheld : row ∈ t.held)
    (hpending : t.pending.get? row = none) :
    s.ask tx (.update row delta) =
      (.served delta, s.put tx { t with pending := t.pending.insert row delta } s.locks) := by
  have hserve : t.serve (s.accounts.get? row) (.update row delta) =
      (.served delta, { t with pending := t.pending.insert row delta }) := by
    have halone : t.alone s.accounts (.update row delta) = _ :=
      OpenTx.alone_update_held hheld hpending
    rwa [OpenTx.alone, if_pos (show (Request.update row delta).row ∈ t.held from hheld)] at halone
  rw [ask, (isBlocked_eq_false hlive).2 hidle, if_neg Bool.false_ne_true, request, hlive]
  simp only [Request.row, if_pos hheld, hserve]

end Asking

/-- Who is not answered waits. -/
theorem isBlocked_of_waiting (h : s.Consistent) (hlive : s.live.get? tx = some o)
    (hstands : ∀ w, o.blocked = some w → w.request = r)
    (hwaiting : (s.ask tx r).1 = .waiting) : (s.ask tx r).2.isBlocked tx = true := by
  rcases answered_ask h hlive hstands with hanswered | ⟨heq, w, hblocked, _⟩
  · generalize s.ask tx r = result at hanswered hwaiting
    cases hanswered with
    | alone => exact absurd hwaiting (OpenTx.alone_ne_waiting _ _)
    | cycle => simp at hwaiting
    | waiting =>
        rw [isBlocked, wait?_put]
        rfl
  · rw [heq, isBlocked, wait?, hlive, Option.bind_some, hblocked]
    rfl

/-- Others leave the mark of a transaction alone. -/
theorem waits_step_other (he : e.tx? ≠ some tx) :
    (s.step e).2.locks.waits.get? tx = s.locks.waits.get? tx := by
  have hlook : ∀ {other : TxId} {t : OpenTx} {r : Request} {result : Reply × Store},
      some other ≠ some tx → Examined s other t r result →
      result.2.locks.waits.get? tx = s.locks.waits.get? tx := by
    intro other t r result hne hlook
    have hne : other ≠ tx := fun hc => hne (hc ▸ rfl)
    cases hlook with
    | absent => rw [put_locks, RowLocks.stopWaiting, Table.get?_erase, if_neg hne]
    | granted => rw [put_locks, RowLocks.take, Table.get?_erase, if_neg hne]
    | cycle => rw [put_locks, RowLocks.stopWaiting, Table.get?_erase, if_neg hne]
    | waiting => rw [put_locks, RowLocks.startWaiting, Table.get?_insert, if_neg hne]
  have hend : ∀ {other : TxId} {t : OpenTx}, some other ≠ some tx →
      s.live.get? other = some t →
      (s.release other).locks.waits.get? tx = s.locks.waits.get? tx := by
    intro other t hne hlive
    rw [release_locks hlive, RowLocks.waits_release, if_neg fun hc : other = tx => hne (hc ▸ rfl)]
  have hstep := stepped s e
  generalize s.step e = result at hstep
  cases hstep with
  | asked _ _ _ h => exact hlook he h
  | polled _ _ h => exact hlook he h
  | dropped hlive => exact hend he hlive
  | rolledBack hlive => exact hend he hlive
  | committed hlive _ h =>
      have hrel := hend he hlive
      cases h with
      | conflict => exact hrel
      | rejected => exact hrel
      | applied => exact hrel
  | _ => rfl

/-- Only a start opens a transaction. -/
theorem begun_step (hstart : e ≠ .start) : (s.step e).2.begun = s.begun := by
  have hlook : ∀ {other : TxId} {t : OpenTx} {r : Request} {result : Reply × Store},
      Examined s other t r result → result.2.begun = s.begun := by
    intro other t r result hlook
    rcases exists_put hlook with ⟨t', locks, heq⟩
    rw [heq, put_begun]
  have hstep := stepped s e
  generalize s.step e = result at hstep
  cases hstep with
  | started => exact absurd rfl hstart
  | asked _ _ _ h => exact hlook h
  | polled _ _ h => exact hlook h
  | dropped => exact release_begun ..
  | rolledBack => exact release_begun ..
  | committed _ _ h =>
      cases h with
      | conflict => exact release_begun ..
      | rejected => exact release_begun ..
      | applied => exact release_begun ..
  | _ => rfl

/-- Whoever is left by others was there before, and may have been woken. -/
theorem live_of_step_other (h : s.Consistent) (he : e.tx? ≠ some tx) (hstart : e ≠ .start)
    (ho : (s.step e).2.live.get? tx = some o) :
    ∃ o₀, s.live.get? tx = some o₀ ∧ (o = o₀ ∨ o = o₀.wake) := by
  have hle : tx ≤ s.begun := begun_step hstart ▸ (consistent_step h e).live_le tx o ho
  rcases live_step_other hle he with hsame | hwoken
  · exact ⟨o, hsame.symm.trans ho, Or.inl rfl⟩
  · rw [hwoken, Option.map_eq_some_iff] at ho
    rcases ho with ⟨o₀, ho₀, hwake⟩
    exact ⟨o₀, ho₀, Or.inr hwake.symm⟩

/-- What a commit makes of the accounts, or why it is refused. -/
def verdict (s : Store) (deltas : List (AccountId × Decimal)) :
    Except Refusal (Table AccountId Account) :=
  match s.conflictsDue with
  | _ + 1 => .error .serialization
  | 0 => applyAll s.accounts deltas

/-- The accounts after a commit. -/
def settledAccounts (s : Store) (deltas : List (AccountId × Decimal)) :
    Table AccountId Account :=
  match s.verdict deltas with
  | .ok accounts => accounts
  | .error _ => s.accounts

/-- What a commit returns. -/
def outcome (s : Store) (deltas : List (AccountId × Decimal)) : Except Failure Unit :=
  match s.verdict deltas with
  | .ok _ => .ok ()
  | .error reason => .error (.ofStoreFault reason.toFault)

theorem commit_eq_verdict (hlive : s.live.get? tx = some t) :
    (s.commit tx).1 = (s.verdict t.pending.entries).map (fun _ => ()) ∧
      (s.commit tx).2.accounts = s.settledAccounts t.pending.entries ∧
      (s.commit tx).2.live = (s.release tx).live ∧
      (s.commit tx).2.locks = (s.release tx).locks := by
  have hend := committed hlive
  generalize s.commit tx = result at hend
  cases hend with
  | conflict hdue =>
      have hverdict : s.verdict t.pending.entries = .error .serialization := by
        rw [verdict, hdue]
      rw [settledAccounts, hverdict]
      exact ⟨rfl, release_accounts s tx, rfl, rfl⟩
  | @rejected objection hdue hall =>
      have hverdict : s.verdict t.pending.entries = .error objection := by
        rw [verdict, hdue]
        exact hall
      rw [settledAccounts, hverdict]
      exact ⟨rfl, release_accounts s tx, rfl, rfl⟩
  | @applied accounts hdue hall =>
      have hverdict : s.verdict t.pending.entries = .ok accounts := by
        rw [verdict, hdue]
        exact hall
      rw [settledAccounts, hverdict]
      exact ⟨rfl, rfl, rfl, rfl⟩

/-- What deltas come to is decided by the accounts and by the conflicts that are due. -/
theorem settled_congr {s' : Store} (haccounts : s'.accounts = s.accounts)
    (hdue : s'.conflictsDue = s.conflictsDue) (deltas : List (AccountId × Decimal)) :
    s'.settledAccounts deltas = s.settledAccounts deltas ∧
      s'.outcome deltas = s.outcome deltas := by
  have hverdict : s'.verdict deltas = s.verdict deltas := by
    rw [verdict, verdict, haccounts, hdue]
  rw [settledAccounts, settledAccounts, outcome, outcome, hverdict, haccounts]
  exact ⟨rfl, rfl⟩

/-- What a commit is refused for is no cycle. -/
theorem outcome_ne_deadlock (s : Store) (deltas : List (AccountId × Decimal))
    (text : String) : s.outcome deltas ≠ .error (.conflict (.deadlock text)) := by
  have hverdict : ∀ tx row holder, s.verdict deltas ≠ .error (.deadlock tx row holder) := by
    intro tx row holder hc
    rw [verdict] at hc
    cases hdue : s.conflictsDue with
    | succ => simp [hdue] at hc
    | zero =>
        rw [hdue] at hc
        have hnot := isConflict_applyAll hc
        simp [Refusal.isConflict] at hnot
  intro hc
  rw [outcome] at hc
  cases h : s.verdict deltas with
  | ok => simp [h] at hc
  | error reason =>
      simp only [h, Except.error.injEq] at hc
      rcases Refusal.failure_eq_deadlock hc with ⟨tx, row, holder, rfl⟩
      exact hverdict tx row holder h

end Store

namespace Work

variable {α : Type} {tx : TxId} {s : Service} {r : Request}
  {next : Except StoreFault Decimal → Work α} {reply : Reply} {store : Store}

/-- A request goes on with its answer, and is made again if there is none. -/
theorem step_request (hask : s.store.ask tx r = (reply, store)) :
    ((Work.request r next).step tx s).1 = (reply.toAnswer.map next).getD (.request r next) ∧
      ((Work.request r next).step tx s).2.store = store := by
  have htold := Service.request_answer s tx r
  have hstore := Service.request_store s tx r
  rw [hask] at htold hstore
  rw [step]
  generalize s.request tx r = result at htold hstore
  rcases result with ⟨told, s'⟩
  simp only at htold hstore
  rw [← htold]
  cases told with
  | none => exact ⟨rfl, hstore⟩
  | some answer => exact ⟨rfl, hstore⟩

/-- The next thing to do is to call the store. -/
def Calls : Work α → Prop
  | .request .. | .commit _ | .rollback _ => True
  | .done _ | .pause .. | .tell .. | .note .. | .crash => False

/-- Work that is answered is run on from there. -/
theorem run_step {w : Work α} (hcalls : w.Calls) (hmoves : (w.step tx s).1 ≠ w) :
    w.run tx s = (w.step tx s).1.run tx (w.step tx s).2 := by
  cases w with
  | request r next =>
      rw [step] at hmoves ⊢
      rw [run]
      generalize s.request tx r = result at hmoves
      rcases result with ⟨answer, s'⟩
      cases answer with
      | none => exact absurd rfl hmoves
      | some answer => rfl
  | commit next => rfl
  | rollback next => rfl
  | _ => exact hcalls.elim

/-- Work that makes the same request again waits. -/
theorem run_of_stays {r : Request} {next : Except StoreFault Decimal → Work α}
    (hstays : ((request r next).step tx s).1 = .request r next)
    (hmoves : ∀ answer, next answer ≠ .request r next) :
    (request r next).run tx s = (.blocked r next, ((request r next).step tx s).2) := by
  rw [step] at hstays ⊢
  rw [run]
  generalize s.request tx r = result at hstays
  rcases result with ⟨answer, s'⟩
  cases answer with
  | none => rfl
  | some answer => exact absurd hstays (hmoves answer)

end Work

namespace Traffic

variable {ι : Type} {program : ι → Operation} {t : Traffic ι} {tx : TxId} {label : ι}

/-- Nobody can go on: whoever is left waits and has not been woken. -/
def Exhausted (t : Traffic ι) : Prop :=
  ∀ tx task, t.tasks.get? tx = some task → ∃ r, t.store.wait? tx = some ⟨r, false⟩

/-- A turn leaves the other tasks as they are. -/
theorem task_turned_other {turn : Turn ι} {result : List (Report ι) × Traffic ι}
    (hturned : Turned program t turn result) (hle : tx ≤ t.store.begun)
    (hadvance : turn ≠ .advance tx) (hcut : turn ≠ .cut tx) :
    result.2.tasks.get? tx = t.tasks.get? tx := by
  have hclosed : ∀ {other}, other ≠ tx → (t.close other).tasks.get? tx = t.tasks.get? tx := by
    intro other hne
    rw [close, Table.get?_erase, if_neg hne]
  cases hturned with
  | nothing => rfl
  | settled => rfl
  | happened _ _ htasks => rw [htasks]
  | launched _ _ htasks =>
      rw [htasks, Table.get?_insert, if_neg]
      exact fun hc : t.store.begun + 1 = tx => absurd (hc ▸ hle) (Nat.not_succ_le_self _)
  | @moved other _ _ _ _ _ htasks =>
      rw [htasks, Table.get?_insert, if_neg fun hc : other = tx => hadvance (hc ▸ rfl)]
  | returned => exact hclosed fun hc => hadvance (hc ▸ rfl)
  | crashed => exact hclosed fun hc => hadvance (hc ▸ rfl)
  | cut => exact hclosed fun hc => hcut (hc ▸ rfl)

-- Induction on the walk. A step that leads nowhere takes no turn, since the turn of a task that has
-- ended would close it.
/-- What work walks through a task can go through in turns of its own. -/
theorem exists_advances {w w' : Work Unit} {s s' : Service} (hwalks : Work.Walks tx w s w' s')
    {t : Traffic ι} (hservice : t.service = s) (htask : t.tasks.get? tx = some ⟨label, w⟩) :
    ∃ more : List TxId, (t.after program (more.map .advance)).service = s' ∧
      (t.after program (more.map .advance)).tasks.get? tx = some ⟨label, w'⟩ ∧
      ∀ other, tx ≠ other →
        (t.after program (more.map .advance)).tasks.get? other = t.tasks.get? other := by
  induction hwalks generalizing t with
  | stays => exact ⟨[], hservice, htask, fun _ _ => rfl⟩
  | @goes w w' s s' _ ih =>
      by_cases hstays : w.step tx s = (w, s)
      · rw [hstays] at ih
        exact ih hservice htask
      · have hdone : ∀ outcome, w ≠ .done outcome := by
          rintro outcome rfl
          exact hstays rfl
        have hcrash : w ≠ .crash := by
          rintro rfl
          exact hstays rfl
        have hstep : t.step program (.advance tx) = ([], ⟨(w.step tx s).2,
            t.tasks.insert tx ⟨label, (w.step tx s).1⟩⟩) := by
          rw [step, htask, ← hservice]
          exact advance_eq hdone hcrash
        rcases ih (t := (t.step program (.advance tx)).2) (by rw [hstep])
          (by rw [hstep, Table.get?_insert, if_pos rfl]) with ⟨more, hlast, htask', hothers⟩
        refine ⟨tx :: more, hlast, htask', fun other hne => (hothers other hne).trans ?_⟩
        rw [hstep, Table.get?_insert, if_neg hne]

end Traffic

end RowLedger
