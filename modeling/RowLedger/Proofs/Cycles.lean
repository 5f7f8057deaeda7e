import RowLedger.Proofs.Waiting

/-!
# Cycles that are reported

A request is refused with a deadlock if following the waits from the holder of
its row leads back to the one who asks. What is followed are marks. A mark is
made when a call starts to wait and it is taken away when the call gets its
row, is refused, or loses its transaction. Only a call that is given up leaves
its mark behind, on a transaction that goes on and waits for nothing.

So every reported cycle consists of calls that wait and of marks that were left
behind, and as long as no waiting call has been given up it is a real one: the
marks are then exactly the rows that calls wait for. Once a call has been given
up, a request can be refused although its row would have become free.

## Main definitions

* `Outcome.refusal?`: Why a call was refused.
* `Store.Stale`: A transaction is marked as waiting and has no call that waits.

## Theorems

* `stale_step`, `stale_after`: Only a call that is given up leaves its mark.
* `refused_deadlock`: When a deadlock is reported.
* `deadlock_reported`: What a reported cycle is made of.
* `deadlock_reported_phantom`: A reported cycle in which somebody waits for
  nothing.
-/

namespace RowLedger

open Relation

/-- Why a call was refused. -/
def Outcome.refusal? : Outcome → Option Refusal
  | .replied (.refused reason) | .refused reason => some reason
  | .replied (.served _) | .replied .waiting | .done => none

theorem Outcome.refusal?_whenEnded (c : Call) :
    c.whenEnded.refusal? = none ∨ c.whenEnded.refusal? = some .ended := by
  cases c with
  | request => exact Or.inr rfl
  | commit => exact Or.inr rfl
  | rollback => exact Or.inl rfl

theorem Outcome.refusal?_replied {reply : Reply} {reason : Refusal} :
    (Outcome.replied reply).refusal? = some reason ↔ reply = .refused reason := by
  cases reply with
  | served => simp [refusal?]
  | refused => simp [refusal?]
  | waiting => simp [refusal?]

/-- The two conflicts have different state codes. -/
theorem Refusal.eq_deadlock {reason : Refusal} {text : String}
    (h : reason.toFault = .conflict deadlockCode text) :
    ∃ tx row holder, reason = .deadlock tx row holder := by
  cases reason with
  | deadlock tx row holder => exact ⟨tx, row, holder, rfl⟩
  | serialization =>
      rw [toFault, StoreFault.serialization, StoreFault.conflict.injEq] at h
      exact absurd h.1 (by decide)
  | ended => simp [toFault] at h
  | noAccount => simp [toFault] at h
  | balanceOverflow => simp [toFault] at h
  | deltaOverflow => simp [toFault] at h
  | negativeBalance => simp [toFault] at h

namespace Store

variable {s : Store}

/-- A transaction is marked as waiting and has no call that waits. -/
def Stale (s : Store) (tx : TxId) : Prop :=
  (s.locks.waits.get? tx).isSome = true ∧ s.wait? tx = none

/-- An edge that does not belong to a mark left behind is the wait of a call. -/
theorem blockedOn_of_ahead (h : s.Consistent) {a b : TxId} (hab : s.locks.Ahead a b)
    (hstale : ¬ s.Stale a) : s.BlockedOn a b := by
  rcases (RowLocks.ahead?_eq_some_iff _ a b).1 hab with ⟨row, hmark, hheld⟩
  cases hw : s.wait? a with
  | none => exact absurd ⟨by rw [hmark]; rfl, hw⟩ hstale
  | some w =>
      rcases wait?_eq_some_iff.1 hw with ⟨t, hlive, hb⟩
      have hrow := h.blocked_wait a t w hlive hb
      rw [hmark, Option.some.injEq] at hrow
      exact ⟨w, hw, hrow ▸ hheld⟩

/-- With no mark left behind, the marks are the rows that calls wait for. -/
theorem waits_iff (h : s.Consistent) (hstale : ∀ tx, ¬ s.Stale tx) (tx : TxId) (row : AccountId) :
    s.locks.waits.get? tx = some row ↔ ∃ w, s.wait? tx = some w ∧ w.request.row = row := by
  constructor
  · intro hmark
    cases hw : s.wait? tx with
    | none => exact absurd ⟨by rw [hmark]; rfl, hw⟩ (hstale tx)
    | some w =>
        rcases wait?_eq_some_iff.1 hw with ⟨t, hlive, hb⟩
        have hrow := h.blocked_wait tx t w hlive hb
        rw [hmark, Option.some.injEq] at hrow
        exact ⟨w, rfl, hrow.symm⟩
  · rintro ⟨w, hw, rfl⟩
    rcases wait?_eq_some_iff.1 hw with ⟨t, hlive, hb⟩
    exact h.blocked_wait tx t w hlive hb

/-- A change of one record leaves the marks of the others as they are. -/
theorem stale_put {tx other : TxId} {t' : OpenTx} {locks : RowLocks}
    (hmark : ∀ o, tx ≠ o → locks.waits.get? o = s.locks.waits.get? o)
    (hown : (locks.waits.get? tx).isSome = true → t'.blocked = none → s.Stale tx)
    (hstale : (s.put tx t' locks).Stale other) : s.Stale other := by
  rcases hstale with ⟨hsome, hnone⟩
  rw [put_locks] at hsome
  by_cases heq : tx = other
  · subst heq
    rw [wait?_put] at hnone
    exact hown hsome hnone
  · rw [hmark other heq] at hsome
    rw [wait?, put_live, if_neg heq] at hnone
    exact ⟨hsome, hnone⟩

/-- A look at a row leaves no mark behind: it takes the mark away, or the call waits. -/
theorem stale_examined {tx other : TxId} {t : OpenTx} {r : Request} {result : Reply × Store}
    (hlook : Examined s tx t r result) (hstale : result.2.Stale other) : s.Stale other := by
  have herase : ∀ o, tx ≠ o → (s.locks.waits.erase tx).get? o = s.locks.waits.get? o := by
    intro o hne
    rw [Table.get?_erase, if_neg hne]
  have hgone : ((s.locks.waits.erase tx).get? tx).isSome = true → s.Stale tx := by
    intro hsome
    rw [Table.get?_erase, if_pos rfl] at hsome
    simp at hsome
  cases hlook with
  | absent => exact stale_put herase (fun hsome _ => hgone hsome) hstale
  | granted => exact stale_put herase (fun hsome _ => hgone hsome) hstale
  | cycle => exact stale_put herase (fun hsome _ => hgone hsome) hstale
  | waiting =>
      refine stale_put ?_ (by simp) hstale
      intro o hne
      rw [RowLocks.startWaiting, Table.get?_insert, if_neg hne]

/-- The end of a transaction takes its mark away. -/
theorem stale_release {tx other : TxId} {t : OpenTx} (hlive : s.live.get? tx = some t)
    (hstale : (s.release tx).Stale other) : s.Stale other := by
  rcases hstale with ⟨hsome, hnone⟩
  rcases Option.isSome_iff_exists.1 hsome with ⟨row, hmark⟩
  rcases waits_of_release hlive hmark with ⟨hne, hbefore⟩
  rw [wait?, live_release hlive, if_neg hne, Option.bind_map, Option.bind_eq_none_iff] at hnone
  refine ⟨by rw [hbefore]; rfl, ?_⟩
  rw [wait?, Option.bind_eq_none_iff]
  intro o ho
  simpa using hnone o ho

/-- Only a call that is given up leaves its mark behind. -/
theorem stale_step (h : s.Consistent) {e : Event} {tx : TxId} (hstale : (s.step e).2.Stale tx) :
    s.Stale tx ∨ e = .abandon tx := by
  have hstep := stepped s e
  generalize s.step e = result at hstep hstale
  cases hstep with
  | nothing => exact Or.inl hstale
  | started =>
      refine Or.inl ⟨hstale.1, ?_⟩
      -- Who is marked was open before, so its number is not the new one.
      rcases Option.isSome_iff_exists.1 hstale.1 with ⟨row, hmark⟩
      rcases h.wait_open tx row hmark with ⟨t, hlive, _⟩
      have hnone := hstale.2
      rwa [wait?, live_start_keep h hlive, ← hlive] at hnone
  | closed => exact Or.inl hstale
  | served hlive hidle _ =>
      refine Or.inl (stale_put (fun _ _ => rfl) ?_ hstale)
      intro hsome _
      exact ⟨hsome, by rw [wait?, hlive]; exact hidle⟩
  | asked _ _ _ hlook => exact Or.inl (stale_examined hlook hstale)
  | polled _ _ hlook => exact Or.inl (stale_examined hlook hstale)
  | @abandoned other t hlive =>
      by_cases heq : other = tx
      · exact Or.inr (by rw [heq])
      · refine Or.inl ⟨hstale.1, ?_⟩
        have hnone := hstale.2
        rwa [wait?, put_live, if_neg heq] at hnone
  | dropped hlive => exact Or.inl (stale_release hlive hstale)
  | rolledBack hlive => exact Or.inl (stale_release hlive hstale)
  | committed hlive _ hend =>
      cases hend with
      | conflict => exact Or.inl (stale_release hlive hstale)
      | rejected => exact Or.inl (stale_release hlive hstale)
      | applied => exact Or.inl (stale_release hlive hstale)
  | inserted => exact Or.inl hstale
  | injected => exact Or.inl hstale

/-- A mark that a run has left behind is that of a call which was given up. -/
theorem stale_after (h : s.Consistent) (hclean : ∀ tx, ¬ s.Stale tx) (events : List Event)
    {tx : TxId} (hstale : (s.after events).Stale tx) : Event.abandon tx ∈ events := by
  have hrun : (s.after events).Consistent ∧
      ∀ tx, (s.after events).Stale tx → Event.abandon tx ∈ events := by
    refine after_induction (P := fun s => s.Consistent ∧
      ∀ tx, s.Stale tx → Event.abandon tx ∈ events) events s ⟨h, ?_⟩ ?_
    · exact fun tx hs => absurd hs (hclean tx)
    · rintro s e he ⟨hcons, hmarks⟩
      refine ⟨consistent_step hcons e, ?_⟩
      intro tx hs
      rcases stale_step hcons hs with hbefore | rfl
      · exact hmarks tx hbefore
      · exact he
  exact hrun.2 tx hstale

/-- What a commit is refused for is not a deadlock. -/
theorem committed_ne_deadlock {tx tx' holder : TxId} {t : OpenTx} {row : AccountId}
    {result : Except Refusal Unit × Store} (hend : Committed s tx t result) :
    (Outcome.ofResult result.1).refusal? ≠ some (.deadlock tx' row holder) := by
  cases hend with
  | conflict => simp [Outcome.ofResult, Outcome.refusal?]
  | rejected _ hall =>
      rw [Outcome.ofResult, Outcome.refusal?]
      intro hc
      have hnot := isConflict_applyAll hall
      rw [Option.some.inj hc, Refusal.isConflict] at hnot
      simp at hnot
  | applied => simp [Outcome.ofResult, Outcome.refusal?]

/-- When a deadlock is reported, the marks lead from the holder of the row to the one who asks. -/
theorem refused_deadlock (h : s.Consistent) {e : Event} {answer : Answer} {tx holder : TxId}
    {row : AccountId} (hanswer : (s.step e).1 = some answer)
    (hrefused : answer.outcome.refusal? = some (.deadlock tx row holder)) :
    answer.tx = tx ∧ (∃ r, answer.call = .request r ∧ r.row = row) ∧
      s.locks.holders.get? row = some holder ∧ holder ≠ tx ∧
      TransGen s.locks.Ahead holder tx := by
  have hlook : ∀ {asker : TxId} {t : OpenTx} {r : Request} {result : Reply × Store},
      s.live.get? asker = some t → r.row ∉ t.held → Examined s asker t r result →
      result.1 = .refused (.deadlock tx row holder) →
      asker = tx ∧ r.row = row ∧ s.locks.holders.get? row = some holder ∧ holder ≠ tx ∧
        TransGen s.locks.Ahead holder tx := by
    intro asker t r result hlive hnew hlook hresult
    cases hlook with
    | absent => simp at hresult
    | granted => exact absurd hresult (OpenTx.serve_ne_deadlock _ _ _ _ _ _)
    | cycle _ hheld hback =>
        rw [Reply.refused.injEq, Refusal.deadlock.injEq] at hresult
        rcases hresult with ⟨rfl, rfl, rfl⟩
        have hne := h.holder_ne hlive hnew
        have hpath := (RowLocks.wouldDeadlock_iff _ _ _).1 hback
        rcases reflTransGen_iff_eq_or_transGen.1 hpath with heq | hcycle
        · exact absurd (heq ▸ hheld) hne
        · refine ⟨rfl, rfl, hheld, ?_, hcycle⟩
          rintro rfl
          exact hne hheld
    | waiting => simp at hresult
  have hstep := stepped s e
  generalize s.step e = result at hstep hanswer
  cases hstep with
  | closed _ _ c =>
      rw [← Option.some.inj hanswer] at hrefused
      rcases Outcome.refusal?_whenEnded c with hnone | hended
      · simp [hnone] at hrefused
      · simp [hended] at hrefused
  | served =>
      rw [← Option.some.inj hanswer, Outcome.refusal?_replied] at hrefused
      exact absurd hrefused (OpenTx.serve_ne_deadlock _ _ _ _ _ _)
  | asked hlive _ hnew hex =>
      rw [← Option.some.inj hanswer, Outcome.refusal?_replied] at hrefused
      rw [← Option.some.inj hanswer]
      rcases hlook hlive hnew hex hrefused with ⟨rfl, hrow, hcycle⟩
      exact ⟨rfl, ⟨_, rfl, hrow⟩, hcycle⟩
  | polled hlive hwoken hex =>
      rw [← Option.some.inj hanswer, Outcome.refusal?_replied] at hrefused
      rw [← Option.some.inj hanswer]
      have hnew := h.blocked_new hlive hwoken
      rcases hlook hlive hnew hex hrefused with ⟨rfl, hrow, hcycle⟩
      exact ⟨rfl, ⟨_, rfl, hrow⟩, hcycle⟩
  | rolledBack =>
      rw [← Option.some.inj hanswer] at hrefused
      simp [Outcome.refusal?] at hrefused
  | committed _ _ hend =>
      rw [← Option.some.inj hanswer] at hrefused
      exact absurd hrefused (committed_ne_deadlock hend)
  | nothing => simp at hanswer
  | started => simp at hanswer
  | abandoned => simp at hanswer
  | dropped => simp at hanswer
  | inserted => simp at hanswer
  | injected => simp at hanswer

theorem not_stale_ofAccounts (accounts : Table AccountId Account) (tx : TxId) :
    ¬ (ofAccounts accounts).Stale tx := by
  rintro ⟨hsome, _⟩
  simp [ofAccounts, empty, RowLocks.empty] at hsome

/-- A reported cycle leads from the holder of the row to the one who asks, each time over a call
that waits or over a mark that a call has left behind when it was given up. If no call was given
up, all of them wait, and the marks are the rows they wait for. -/
theorem deadlock_reported (accounts : Table AccountId Account) (events : List Event) (e : Event)
    (answer : Answer) (reason : Refusal) (text : String)
    (hanswer : (((ofAccounts accounts).after events).step e).1 = some answer)
    (hrefused : answer.outcome.refusal? = some reason)
    (hcode : reason.toFault = .conflict deadlockCode text) :
    let s := (ofAccounts accounts).after events
    ∃ r holder, answer.call = .request r ∧ reason = .deadlock answer.tx r.row holder ∧
      s.locks.holders.get? r.row = some holder ∧ holder ≠ answer.tx ∧
      TransGen (fun a b => s.BlockedOn a b ∨
        (s.locks.Ahead a b ∧ s.Stale a ∧ Event.abandon a ∈ events)) holder answer.tx ∧
      ((∀ other, Event.abandon other ∉ events) →
        TransGen s.BlockedOn holder answer.tx ∧
          ∀ other row, s.locks.waits.get? other = some row ↔
            ∃ w, s.wait? other = some w ∧ w.request.row = row) := by
  intro s
  have hcons : s.Consistent := consistent_after (consistent_ofAccounts accounts) events
  have hleft : ∀ {a}, s.Stale a → Event.abandon a ∈ events :=
    stale_after (consistent_ofAccounts accounts) (not_stale_ofAccounts accounts) events
  rcases Refusal.eq_deadlock hcode with ⟨tx, row, holder, rfl⟩
  rcases refused_deadlock hcons hanswer hrefused with ⟨rfl, ⟨r, hcall, rfl⟩, hheld, hne, hcycle⟩
  refine ⟨r, holder, hcall, rfl, hheld, hne, ?_, ?_⟩
  · refine TransGen.mono ?_ holder answer.tx hcycle
    intro a b hab
    by_cases hstale : s.Stale a
    · exact Or.inr ⟨hab, hstale, hleft hstale⟩
    · exact Or.inl (blockedOn_of_ahead hcons hab hstale)
  · intro hkept
    have hclean : ∀ a, ¬ s.Stale a := fun a hstale => hkept a (hleft hstale)
    refine ⟨TransGen.mono ?_ holder answer.tx hcycle, waits_iff hcons hclean⟩
    exact fun a b hab => blockedOn_of_ahead hcons hab (hclean a)

/-- Two accounts and two transactions, each of which holds one of them. The first one waits for
the account of the second. -/
def facing : List Event :=
  [.insert 1 (.ofUInt64 10), .insert 2 (.ofUInt64 10), .start, .start,
    .call 1 (.request (.query 1)), .call 2 (.request (.query 2)), .call 1 (.request (.query 2))]

theorem deadlock_reported_facing :
    let s := (ofAccounts .empty).after facing
    (s.step (.call 2 (.request (.query 1)))).1 =
        some ⟨2, .request (.query 1), .replied (.refused (.deadlock 2 1 1))⟩ ∧
      TransGen s.BlockedOn 1 2 := by
  intro s
  have hanswer : (s.step (.call 2 (.request (.query 1)))).1 =
      some ⟨2, .request (.query 1), .replied (.refused (.deadlock 2 1 1))⟩ := by decide +kernel
  have hkept : ∀ other, Event.abandon other ∉ facing := by simp [facing]
  rcases deadlock_reported .empty facing _ _ (.deadlock 2 1 1) _ hanswer rfl rfl with
    ⟨r, holder, hcall, hreason, _, _, _, hreal⟩
  rw [Refusal.deadlock.injEq] at hreason
  exact ⟨hanswer, hreason.2.2 ▸ (hreal hkept).1⟩

-- The first transaction does not wait any longer when the second one asks for its account, so that
-- account would become free in the end.
/-- A cycle may be reported in which nobody waits, since a call that was given up has left its
mark. -/
theorem deadlock_reported_phantom :
    ¬ ∀ (accounts : Table AccountId Account) (events : List Event) (e : Event) (answer : Answer)
      (tx : TxId) (row : AccountId) (holder : TxId),
      (((ofAccounts accounts).after events).step e).1 = some answer →
      answer.outcome.refusal? = some (.deadlock tx row holder) →
      TransGen ((ofAccounts accounts).after events).BlockedOn holder tx := by
  intro hreal
  have hanswer : (((ofAccounts .empty).after (facing ++ [.abandon 1])).step
      (.call 2 (.request (.query 1)))).1 =
      some ⟨2, .request (.query 1), .replied (.refused (.deadlock 2 1 1))⟩ := by decide +kernel
  have hnone : ((ofAccounts .empty).after (facing ++ [.abandon 1])).wait? 1 = none := by
    decide +kernel
  rcases TransGen.head'_iff.1 (hreal .empty _ _ _ 2 1 1 hanswer rfl) with ⟨next, ⟨w, hw, _⟩, _⟩
  rw [hnone] at hw
  simp at hw

end Store

end RowLedger
