import RowLedger.Proofs.Kept
import RowLedger.Proofs.OrderedWork

/-!
# Ordered calls meet no conflicts

The lock order is a matter of each transaction alone: who keeps to it never
becomes a victim, whoever else is there, as long as all keep to it. Ordered
calls do, for any transfers and against any others. So where there are no
others and no conflicts are due, no ordered call returns with a conflict.

The last part needs both halves at once. That no call is a victim is known of
runs in which the waits point upwards, they do as long as everybody asks in
order, and that the ordered calls ask in order is known from the contract that
they meet as long as no call is a victim.

## Main definitions

* `Contract.orderly`: Requests are made in order.
* `Turn.isOwn`: A turn of the operations.

## Theorems

* `inOrder_behind`: Ordered calls ask in order.
* `permitsAll_undisturbed`: Among themselves they meet no conflict.
* `ordered_without_deadlock`: In order there are no deadlocks.
-/

namespace RowLedger

/-- Requests are made in order, and nothing is known about the accounts. Conflicts may be met or
not. -/
def Contract.orderly (disturbed : Prop) : Contract where
  accounts := fun _ => True
  locked := False
  asks := fun t r => RowAbove t.held r.row
  victims := disturbed
  conflicts := disturbed

/-- The turn is one of the operations, or an account is put in. -/
def Turn.isOwn {ι : Type} : Turn ι → Bool
  | .event (.insert ..) => true
  | .event _ => false
  | .launch _ | .advance _ | .cut _ => true

namespace Store

variable {s : Store}

/-- Nobody else makes conflicts due. -/
theorem conflictsDue_step {e : Event} (hinject : ∀ conflicts, e ≠ .inject conflicts)
    (hdue : s.conflictsDue = 0) : (s.step e).2.conflictsDue = 0 := by
  have hlook : ∀ {tx : TxId} {t : OpenTx} {r : Request} {result : Reply × Store},
      Examined s tx t r result → result.2.conflictsDue = 0 := by
    intro tx t r result hlook
    rcases exists_put hlook with ⟨t', locks, heq⟩
    rw [heq, put_conflictsDue]
    exact hdue
  have hrel : ∀ tx, (s.release tx).conflictsDue = 0 := fun tx =>
    (release_conflictsDue s tx).trans hdue
  have hstep := stepped s e
  generalize s.step e = result at hstep
  cases hstep with
  | asked _ _ _ h => exact hlook h
  | polled _ _ h => exact hlook h
  | dropped => exact hrel _
  | rolledBack => exact hrel _
  | committed _ _ hend =>
      cases hend with
      | conflict hsome =>
          rw [hdue] at hsome
          simp at hsome
      | rejected => exact hrel _
      | applied => exact hrel _
  | injected conflicts => exact absurd rfl (hinject conflicts)
  | _ => exact hdue

/-- The only conflict that a request may meet is a cycle. -/
theorem deadlock_of_ask {tx : TxId} {r : Request} {reason : Refusal} (h : s.Consistent)
    (hstands : ∀ w, s.wait? tx = some w → w.request = r) (hask : (s.ask tx r).1 = .refused reason)
    (hconflict : reason.isConflict = true) : ∃ holder, reason = .deadlock tx r.row holder := by
  cases hlive : s.live.get? tx with
  | none =>
      rw [ask_of_ended hlive, Reply.refused.injEq] at hask
      rw [← hask] at hconflict
      simp [Refusal.isConflict] at hconflict
  | some t =>
      have hanswered := answered_ask h hlive fun w hb =>
        hstands w (wait?_eq_some_iff.2 ⟨t, hlive, hb⟩)
      generalize s.ask tx r = result at hanswered hask
      rcases hanswered with hanswered | ⟨heq, _⟩
      · cases hanswered with
        | alone =>
            rw [OpenTx.alone_refused hask] at hconflict
            simp at hconflict
        | cycle holder =>
            rw [Reply.refused.injEq] at hask
            exact ⟨holder, hask.symm⟩
        | waiting => simp at hask
      · rw [heq] at hask
        simp at hask

theorem waitsUp_empty : empty.WaitsUp := by
  intro tx t row hlive
  simp [empty] at hlive

/-- In order no request meets a deadlock. -/
theorem no_deadlock_run (events : List Event) (hrun : empty.RunsInOrder events) {a : Answer}
    (ha : a ∈ empty.answers events) {reason : Refusal}
    (hrefused : a.outcome = .replied (.refused reason)) (text : String) :
    reason.toFault ≠ .deadlock text := by
  have hno := no_victim_run consistent_empty waitsUp_empty events hrun ha
  cases reason with
  | deadlock tx row holder => exact absurd hrefused (hno tx row holder)
  | serialization => simp [Refusal.toFault, StoreFault.serialization, StoreFault.deadlock,
      serializationCode, deadlockCode]
  | _ => simp [Refusal.toFault, StoreFault.deadlock]

end Store

namespace Traffic

/-- How ordered calls end, for a contract. -/
def bookings (c : Contract) (call : OrderedCall) : Except Failure Unit → Stage → Prop :=
  Booked c call.transfers

variable {t : Traffic OrderedCall} {turn : Turn OrderedCall} {disturbed : Prop}
  {done : TxId → AccountId → Int}

theorem permits_orderly (hvictims : ∀ tx task r next reason, t.tasks.get? tx = some task →
      task.work = .request r next → (t.store.ask tx r).1 = .refused reason →
      reason.isConflict = true → disturbed) (hconflicts : t.store.conflictsDue ≠ 0 → disturbed) :
    Permits OrderedCall.operation (.orderly disturbed) (bookings (.orderly disturbed)) t turn where
  launched _ _ _ hbody :=
    meets_ordered (fun _ _ habove => habove) (fun _ _ _ _ _ _ => trivial) hbody _
  outside _ _ := ⟨trivial, fun h => h.elim⟩
  victims := hvictims
  conflicts := hconflicts

theorem permitsAll_disturbed (turns : List (Turn OrderedCall)) (t : Traffic OrderedCall) :
    t.PermitsAll OrderedCall.operation (.orderly True) (bookings (.orderly True)) turns := by
  induction turns generalizing t with
  | nil => trivial
  | cons turn rest ih =>
      exact ⟨permits_orderly (fun _ _ _ _ _ _ _ _ _ => trivial) fun _ => trivial, ih _⟩

/-- A task that meets the contract asks in order. -/
theorem above_of_kept (h : Kept (.orderly disturbed) (bookings (.orderly disturbed)) done t)
    {tx : TxId} {task : Task OrderedCall} {r : Request}
    {next : Except StoreFault Decimal → Work Unit} {o : OpenTx}
    (htask : t.tasks.get? tx = some task) (hwork : task.work = .request r next)
    (hlive : t.store.live.get? tx = some o) : RowAbove o.held r.row := by
  rcases h.meets tx task htask with ⟨stage, hat, hmeets, _⟩
  rw [hwork] at hmeets
  cases hat with
  | running seen hlive' =>
      rw [hlive, Option.some.injEq] at hlive'
      exact hlive' ▸ hmeets.1
  | ended change hended =>
      rw [hlive] at hended
      simp at hended

-- That no request meets a cycle is known because the requests were in order so far, and what the
-- contract promises of them is known as long as none has met a cycle. Neither comes first, so both
-- are one invariant.
/-- Nothing disturbs the ordered calls: they are among themselves. -/
structure Undisturbed (done : TxId → AccountId → Int) (t : Traffic OrderedCall) : Prop where
  kept : Kept (.orderly False) (bookings (.orderly False)) done t
  up : t.store.WaitsUp
  due : t.store.conflictsDue = 0

/-- What the ordered calls ask for is in order. -/
theorem inOrder_behind (h : Kept (.orderly disturbed) (bookings (.orderly disturbed)) done t)
    (hown : turn.isOwn = true) {e : Event} (hbehind : t.Behind turn e) : t.store.InOrder e := by
  cases hbehind with
  | outside =>
      cases e with
      | insert => trivial
      | _ => simp [Turn.isOwn] at hown
  | opening => trivial
  | @going tx task e htask htx hasks =>
      cases e with
      | call other c =>
          rw [Event.tx?, Option.some.injEq] at htx
          cases c with
          | request r =>
              rcases hasks other r rfl with ⟨next, hwork⟩
              intro o hlive _
              exact above_of_kept h htask hwork (htx ▸ hlive)
          | _ => trivial
      | _ => trivial
  | leaving => trivial

theorem not_inject_behind (hown : turn.isOwn = true) {e : Event} (hbehind : t.Behind turn e)
    (conflicts : Nat) : e ≠ .inject conflicts := by
  rintro rfl
  cases hbehind with
  | outside => simp [Turn.isOwn] at hown
  | going _ htx => simp [Event.tx?] at htx

/-- No request of an ordered call that is undisturbed meets a conflict. -/
theorem no_conflict_asked (h : Undisturbed done t) {tx : TxId} {task : Task OrderedCall}
    {r : Request} {next : Except StoreFault Decimal → Work Unit} {reason : Refusal}
    (htask : t.tasks.get? tx = some task) (hwork : task.work = .request r next)
    (hask : (t.store.ask tx r).1 = .refused reason) : reason.isConflict = false := by
  have hsound := h.kept.sound
  have hstands := hsound.stands htask hwork
  cases hconflict : reason.isConflict with
  | false => rfl
  | true =>
      rcases Store.deadlock_of_ask hsound.consistent hstands hask hconflict with ⟨holder, hreason⟩
      rcases Store.ask_step (hsound.begun tx task htask) hstands with ⟨e, he, _, hanswer⟩
      have horder : t.store.InOrder e := by
        rcases he with rfl | rfl
        · trivial
        · exact fun o hlive _ => above_of_kept h.kept htask hwork hlive
      rcases hanswer with hwait | hanswer
      · rw [hask] at hwait
        simp at hwait
      · have := Store.no_victim_step hsound.consistent h.up horder hanswer tx r.row holder
        rw [hask, hreason] at this
        exact absurd rfl this

theorem permits_undisturbed (h : Undisturbed done t) (turn : Turn OrderedCall) :
    Permits OrderedCall.operation (.orderly False) (bookings (.orderly False)) t turn := by
  refine permits_orderly ?_ fun hdue => hdue h.due
  intro tx task r next reason htask hwork hask hconflict
  rw [no_conflict_asked h htask hwork hask] at hconflict
  simp at hconflict

theorem undisturbed_step (h : Undisturbed done t) (hown : turn.isOwn = true) :
    Undisturbed (fun tx id => done tx id + t.share OrderedCall.operation turn tx id)
      (t.step OrderedCall.operation turn).2 := by
  refine ⟨kept_step h.kept (permits_undisturbed h turn), ?_, ?_⟩
  · rcases turned_store h.kept.sound (turned OrderedCall.operation h.kept.sound.plan turn) with
      hsame | ⟨e, hstep, hbehind⟩
    · exact hsame ▸ h.up
    · rw [hstep]
      exact Store.waitsUp_step h.kept.sound.consistent h.up (inOrder_behind h.kept hown hbehind)
  · rcases turned_store h.kept.sound (turned OrderedCall.operation h.kept.sound.plan turn) with
      hsame | ⟨e, hstep, hbehind⟩
    · exact hsame ▸ h.due
    · rw [hstep]
      exact Store.conflictsDue_step (not_inject_behind hown hbehind) h.due

/-- Ordered calls among themselves meet no conflict. -/
theorem permitsAll_undisturbed (turns : List (Turn OrderedCall)) (h : Undisturbed done t)
    (hown : ∀ turn ∈ turns, turn.isOwn = true) :
    t.PermitsAll OrderedCall.operation (.orderly False) (bookings (.orderly False)) turns := by
  induction turns generalizing done t with
  | nil => trivial
  | cons turn rest ih =>
      refine ⟨permits_undisturbed h turn, ih (undisturbed_step h (hown turn List.mem_cons_self)) ?_⟩
      exact fun turn' hturn' => hown turn' (List.mem_cons_of_mem _ hturn')

theorem undisturbed_ofStore : Undisturbed (fun _ _ => 0) (ofStore .empty) where
  kept := kept_ofStore Store.consistent_empty trivial
  up := Store.waitsUp_empty
  due := rfl

/-- No failure that an undisturbed ordered call returns is a conflict. -/
theorem no_conflict_returned {turns : List (Turn OrderedCall)}
    (hown : ∀ turn ∈ turns, turn.isOwn = true) {call : OrderedCall} {tx : Option TxId}
    {e : Failure}
    (hreport : .returned call tx (.error e) ∈
      (ofStore .empty).reports OrderedCall.operation turns) : e.isConflict = false := by
  cases tx with
  | none =>
      have hsound : (ofStore .empty : Traffic OrderedCall).Sound :=
        sound_ofStore Store.consistent_empty
      rcases settled_ordered (settled_of_report hsound hreport) with ⟨hok, _⟩ | ⟨o, herror⟩
      · simp at hok
      · rw [Except.error.injEq] at herror
        rw [herror]
        rfl
  | some tx =>
      have hpermits := permitsAll_undisturbed turns undisturbed_ofStore hown
      rcases kept_returned turns undisturbed_ofStore.kept hpermits hreport with ⟨stage, hbooked, _⟩
      cases hbooked with
      | failed hconflict =>
          rw [← Bool.not_eq_true]
          exact fun he => (hconflict he).elim id id

/-- If all requests are made in order, none of them meets a deadlock, whatever else happens. Every
ordered call makes its requests in order, for any transfers and whatever others do. And among
themselves, with no conflicts due, no ordered call returns a conflict. -/
theorem ordered_without_deadlock :
    (∀ events, Store.empty.RunsInOrder events → ∀ a ∈ Store.empty.answers events,
      ∀ reason text, a.outcome = .replied (.refused reason) → reason.toFault ≠ .deadlock text) ∧
    (∀ (turns : List (Turn OrderedCall)) tx task r next o,
      ((ofStore .empty).after OrderedCall.operation turns).tasks.get? tx = some task →
      task.work = .request r next →
      ((ofStore .empty).after OrderedCall.operation turns).store.live.get? tx = some o →
      RowAbove o.held r.row) ∧
    (∀ turns : List (Turn OrderedCall), (∀ turn ∈ turns, turn.isOwn = true) →
      ∀ call tx e,
        .returned call tx (.error e) ∈ (ofStore .empty).reports OrderedCall.operation turns →
        e.isConflict = false) := by
  refine ⟨?_, ?_, ?_⟩
  · exact fun events hrun a ha reason text hrefused =>
      Store.no_deadlock_run events hrun ha hrefused text
  · intro turns tx task r next o htask hwork hlive
    have hkept := kept_after turns (kept_ofStore Store.consistent_empty trivial)
      (permitsAll_disturbed turns _)
    exact above_of_kept hkept htask hwork hlive
  · exact fun turns hown call tx e hreport => no_conflict_returned hown hreport

/-- Two transactions go up the rows. The second one gives its call up and goes on to a row above,
and the first one asks for a row that is not there. -/
def upwards : List Event :=
  [.insert 1 (.ofUInt64 10), .insert 3 .zero, .start, .start, .call 1 (.request (.query 1)),
    .call 2 (.request (.query 1)), .abandon 2, .call 2 (.request (.query 3)),
    .call 1 (.request (.query 2)), .call 1 (.request (.query 3)), .drop 2, .poll 1,
    .call 1 .commit]

/-- Two transfers cross, and one of them fails for want of money. -/
def crossing : List (Turn OrderedCall) :=
  [.event (.insert 1 (.ofUInt64 10)), .event (.insert 2 .zero),
    .launch (.transfer ⟨1, 2, .ofUInt64 3⟩), .launch (.transferAttempt ⟨2, 1, .ofUInt64 9⟩),
    .advance 1, .advance 2] ++ List.replicate 7 (.advance 1) ++ List.replicate 6 (.advance 2)

theorem ordered_without_deadlock_crossing :
    (Store.empty.RunsInOrder upwards ∧
      (⟨1, .request (.query 2), .replied (.refused (.noAccount 2))⟩ : Answer) ∈
        Store.empty.answers upwards ∧
      ∀ text, (Refusal.noAccount 2).toFault ≠ .deadlock text) ∧
    (∃ task r next o,
      ((ofStore .empty).after OrderedCall.operation (crossing.take 6)).tasks.get? 2 = some task ∧
      task.work = .request r next ∧
      ((ofStore .empty).after OrderedCall.operation (crossing.take 6)).store.live.get? 2 =
        some o ∧ RowAbove o.held r.row) ∧
    (∀ turn ∈ crossing, turn.isOwn = true) ∧
      ∃ e, .returned (.transferAttempt ⟨2, 1, .ofUInt64 9⟩) (some 2) (.error e) ∈
        (ofStore .empty).reports OrderedCall.operation crossing ∧ e.isConflict = false := by
  have hanswer : (⟨1, .request (.query 2), .replied (.refused (.noAccount 2))⟩ : Answer) ∈
      Store.empty.answers upwards := by decide +kernel
  have horder : Store.empty.RunsInOrder upwards := by decide +kernel
  have hown : ∀ turn ∈ crossing, turn.isOwn = true := by simp [crossing, Turn.isOwn]
  have hreport : .returned (.transferAttempt ⟨2, 1, .ofUInt64 9⟩) (some 2)
      (.error (.insufficientFunds 2 (.ofUInt64 3) (.ofUInt64 9))) ∈
      (ofStore .empty).reports OrderedCall.operation crossing :=
    List.mem_cons_of_mem _ List.mem_cons_self
  refine ⟨⟨horder, hanswer, ?_⟩, ⟨_, _, _, _, rfl, rfl, rfl, ?_⟩, hown, _, hreport, ?_⟩
  · exact fun text => ordered_without_deadlock.1 upwards horder _ hanswer _ text rfl
  · exact ordered_without_deadlock.2.1 (crossing.take 6) 2 _ _ _ _ rfl rfl rfl
  · exact ordered_without_deadlock.2.2 crossing hown _ _ _ hreport

end Traffic

end RowLedger
