import RowLedger.Proofs.Cycles
import RowLedger.Proofs.Frame

/-!
# Victims

A request that would close a cycle is refused when it is made, and never
later. A call that waits looks at its row as often as it is woken, and each
time it looks at everything again: whether the row is there, who holds it, and
whether the holder leads back to the one who waits. By then the others may
have changed the graph in any way. Still none of this can go against it. Rows
that are waited for stay. The wait of the call is an edge of the graph, so a
way back from the holder would close a cycle that is there already, and there
is none. And on a row that the transaction has just taken it has no delta yet,
so no sum can leave the range.

So whoever has started to wait goes on waiting or is served, until the call is
given up or its transaction is dropped.

## Main definitions

* `Store.Awaits`: What a call that waits may be told.

## Theorems

* `serve_new`: A request on a row without a delta is served.
* `looked_again`: A call that looks again waits on or is served.
* `refused_new`: Only a new request is refused.
* `awaits_answers`: What a call is told as long as it waits.
* `victim_at_first_look`: All of this in every run.
-/

namespace RowLedger

namespace OpenTx

/-- A request on a row without a delta is served. -/
theorem serve_new {t : OpenTx} {r : Request} (hnew : t.pending.get? r.row = none)
    (account : Account) : ∃ amount, (t.serve (some account) r).1 = .served amount := by
  cases r with
  | query row =>
      have hdelta : t.delta row = .zero := by
        rw [delta, show t.pending.get? row = none from hnew]
        rfl
      simp only [serve, hdelta]
      cases hzero : account.balance.isZero with
      | true =>
          rw [Decimal.add?_zero_left hzero]
          exact ⟨_, rfl⟩
      | false =>
          rw [Decimal.add?_zero_right hzero rfl]
          exact ⟨_, rfl⟩
  | update row delta =>
      have hdelta : t.delta row = .zero := by
        rw [OpenTx.delta, show t.pending.get? row = none from hnew]
        rfl
      simp only [serve, hdelta]
      rw [Decimal.add?_zero_left rfl]
      exact ⟨_, rfl⟩

end OpenTx

namespace Store

/-- What a call that waits may be told: to wait on, as often as it may be, and then its answer. -/
inductive Awaits (tx : TxId) (r : Request) : List Answer → Prop where
  | silent : Awaits tx r []
  | again {rest : List Answer} (hrest : Awaits tx r rest) :
      Awaits tx r (⟨tx, .request r, .replied .waiting⟩ :: rest)
  | served (amount : Decimal) (rest : List Answer) :
      Awaits tx r (⟨tx, .request r, .replied (.served amount)⟩ :: rest)

variable {s : Store} {tx : TxId} {t : OpenTx} {r : Request}

/-- The holder of a row that a call waits for does not lead back to the call. -/
theorem wouldDeadlock_of_blocked (h : s.Consistent) (hacyclic : s.locks.Acyclic)
    (hlive : s.live.get? tx = some t) {w : Wait} (hblocked : t.blocked = some w)
    {holder : TxId} (hheld : s.locks.holders.get? w.request.row = some holder) :
    s.locks.wouldDeadlock tx holder = false := by
  rw [← Bool.not_eq_true, RowLocks.wouldDeadlock_iff]
  intro hback
  have hwait : s.locks.Ahead tx holder := (RowLocks.ahead?_eq_some_iff _ _ _).2
    ⟨w.request.row, h.blocked_wait tx t w hlive hblocked, hheld⟩
  exact hacyclic tx (Relation.TransGen.head' hwait hback)

/-- A call that looks at its row again waits on or takes the row and is served. -/
theorem looked_again (h : s.Consistent) (hacyclic : s.locks.Acyclic)
    (hlive : s.live.get? tx = some t) (hwoken : t.blocked = some ⟨r, true⟩)
    {result : Reply × Store} (hlook : Examined s tx t r result) :
    (result.1 = .waiting ∧ result.2.wait? tx = some ⟨r, false⟩) ∨
      ∃ amount, result.1 = .served amount ∧ result.2.wait? tx = none ∧
        result.2.locks.holders.get? r.row = some tx := by
  have hnew : r.row ∉ t.held := h.blocked_new hlive hwoken
  cases hlook with
  | absent habsent =>
      have hthere := h.wait_exists tx r.row (h.blocked_wait tx t _ hlive hwoken)
      simp [habsent] at hthere
  | @granted account =>
      -- What has a delta is held, and the row has only just been taken.
      have hnone : t.pending.get? r.row = none := by
        rw [← Option.not_isSome_iff_eq_none]
        exact fun hsome => hnew (h.pending_held tx t r.row hlive hsome)
      rcases OpenTx.serve_new (t := t.idle.lock r.row) hnone account with ⟨amount, hserved⟩
      refine Or.inr ⟨amount, hserved, ?_, ?_⟩
      · rw [wait?_put, OpenTx.serve_blocked]
        rfl
      · rw [put_locks, RowLocks.take, Table.get?_insert, if_pos rfl]
  | cycle _ hheld hback =>
      rw [wouldDeadlock_of_blocked h hacyclic hlive hwoken hheld] at hback
      simp at hback
  | waiting => exact Or.inl ⟨rfl, wait?_put _ _ _ _⟩

/-- Only those who act are answered. -/
theorem tx?_of_answer {e : Event} {answer : Answer} (hanswer : (s.step e).1 = some answer) :
    e.tx? = some answer.tx := by
  have hstep := stepped s e
  generalize s.step e = result at hstep hanswer
  cases hstep with
  | closed => rw [← Option.some.inj hanswer]; rfl
  | served => rw [← Option.some.inj hanswer]; rfl
  | asked => rw [← Option.some.inj hanswer]; rfl
  | polled => rw [← Option.some.inj hanswer]; rfl
  | rolledBack => rw [← Option.some.inj hanswer]; rfl
  | committed => rw [← Option.some.inj hanswer]; rfl
  | nothing => simp at hanswer
  | started => simp at hanswer
  | abandoned => simp at hanswer
  | dropped => simp at hanswer
  | inserted => simp at hanswer
  | injected => simp at hanswer

/-- A poll is answered with what the call finds when it looks at its row again. -/
theorem step_poll (h : s.Consistent) (hacyclic : s.locks.Acyclic)
    (hw : s.wait? tx = some ⟨r, true⟩) :
    ((s.step (.poll tx)).1 = some ⟨tx, .request r, .replied .waiting⟩ ∧
        (s.step (.poll tx)).2.wait? tx = some ⟨r, false⟩) ∨
      ∃ amount, (s.step (.poll tx)).1 = some ⟨tx, .request r, .replied (.served amount)⟩ ∧
        (s.step (.poll tx)).2.wait? tx = none ∧
        (s.step (.poll tx)).2.locks.holders.get? r.row = some tx := by
  rcases wait?_eq_some_iff.1 hw with ⟨t, hlive, hwoken⟩
  have hpoll : s.poll tx = s.examine tx t r := by
    rw [poll, hlive]
    simp only [hwoken]
  simp only [step, hw, hpoll]
  rcases looked_again h hacyclic hlive hwoken (examined s tx t r) with
    ⟨hreply, hwait⟩ | ⟨amount, hreply, hrest⟩
  · exact Or.inl ⟨by rw [hreply], hwait⟩
  · exact Or.inr ⟨amount, by rw [hreply], hrest⟩

/-- Only a new call is refused. -/
theorem refused_new (h : s.Consistent) (hacyclic : s.locks.Acyclic) {e : Event} {answer : Answer}
    {reason : Refusal} (hanswer : (s.step e).1 = some answer)
    (hrefused : answer.outcome.refusal? = some reason) :
    e = .call answer.tx answer.call ∧ s.wait? answer.tx = none := by
  have hidle : ∀ {tx : TxId} {t : OpenTx}, s.live.get? tx = some t → t.blocked = none →
      s.wait? tx = none := by
    intro tx t hlive hblocked
    rw [wait?, hlive]
    exact hblocked
  have hstep := stepped s e
  generalize s.step e = result at hstep hanswer
  cases hstep with
  | closed hended => rw [← Option.some.inj hanswer]; exact ⟨rfl, wait?_of_ended hended⟩
  | served hlive hblocked => rw [← Option.some.inj hanswer]; exact ⟨rfl, hidle hlive hblocked⟩
  | asked hlive hblocked => rw [← Option.some.inj hanswer]; exact ⟨rfl, hidle hlive hblocked⟩
  | rolledBack hlive hblocked =>
      rw [← Option.some.inj hanswer]
      exact ⟨rfl, hidle hlive hblocked⟩
  | committed hlive hblocked => rw [← Option.some.inj hanswer]; exact ⟨rfl, hidle hlive hblocked⟩
  | polled hlive hwoken hlook =>
      rw [← Option.some.inj hanswer, Outcome.refusal?_replied] at hrefused
      rcases looked_again h hacyclic hlive hwoken hlook with ⟨hreply, _⟩ | ⟨amount, hreply, _⟩
      · simp [hreply] at hrefused
      · simp [hreply] at hrefused
  | nothing => simp at hanswer
  | started => simp at hanswer
  | abandoned => simp at hanswer
  | dropped => simp at hanswer
  | inserted => simp at hanswer
  | injected => simp at hanswer

/-- What the others do leaves a call waiting. -/
theorem wait?_kept (h : s.Consistent) {w : Wait} (hw : s.wait? tx = some w) {e : Event}
    (he : e.tx? ≠ some tx) : ∃ w', (s.step e).2.wait? tx = some w' ∧ w'.request = w.request := by
  rcases wait?_eq_some_iff.1 hw with ⟨t, hlive, hblocked⟩
  rcases live_step_other (h.live_le tx t hlive) he with hsame | hwoken
  · exact ⟨w, by rw [wait?, hsame, hlive]; exact hblocked, rfl⟩
  · refine ⟨{ w with woken := true }, ?_, rfl⟩
    rw [wait?, hwoken, hlive, Option.map_some, Option.bind_some, OpenTx.wake_blocked, hblocked]
    rfl

/-- A call that waits makes no other. -/
theorem step_call_of_blocked {w : Wait} (hw : s.wait? tx = some w) (c : Call) :
    s.step (.call tx c) = (none, s) := by
  have hblocked : (s.isBlocked tx || decide (s.begun < tx)) = true := by
    rw [isBlocked, hw]
    rfl
  rw [step, hblocked]
  rfl

/-- A call that has not been woken has nothing to look at. -/
theorem step_poll_of_unwoken (hw : s.wait? tx = some ⟨r, false⟩) :
    s.step (.poll tx) = (none, s) := by
  rw [step, hw]

-- Induction on what happens after the call has begun to wait. Its wait is all that is known of the
-- store besides the two invariants, since the others may do anything meanwhile.
/-- As long as a call is not given up and its transaction is not dropped, it is told to wait on
until it is served. -/
theorem awaits_answers (h : s.Consistent) (hacyclic : s.locks.Acyclic) {w : Wait}
    (hw : s.wait? tx = some w) {later : List Event} (habandon : Event.abandon tx ∉ later)
    (hdrop : Event.drop tx ∉ later) :
    Awaits tx w.request ((s.answers later).filter fun a => decide (a.tx = tx)) := by
  induction later generalizing s w with
  | nil => exact .silent
  | cons e rest ih =>
      rw [List.mem_cons, not_or] at habandon hdrop
      have hcons := consistent_step h e
      have hacyc := acyclic_step hacyclic e
      have hgoesOn : ∀ {w'}, (s.step e).2.wait? tx = some w' → w'.request = w.request →
          Awaits tx w.request
            (((s.step e).2.answers rest).filter fun a => decide (a.tx = tx)) := by
        intro w' hw' hsame
        exact hsame ▸ ih hcons hacyc hw' habandon.2 hdrop.2
      rw [answers, List.filter_append]
      by_cases he : e.tx? = some tx
      · cases e with
        | call tx' c =>
            cases he
            rw [step_call_of_blocked hw] at hgoesOn ⊢
            exact hgoesOn hw rfl
        | poll tx' =>
            cases he
            rcases w with ⟨r, woken⟩
            cases woken with
            | false =>
                rw [step_poll_of_unwoken hw] at hgoesOn ⊢
                exact hgoesOn hw rfl
            | true =>
                rcases step_poll h hacyclic hw with ⟨hanswer, hwait⟩ | ⟨amount, hanswer, _⟩
                · rw [hanswer]
                  simpa using Awaits.again (hgoesOn hwait rfl)
                · rw [hanswer]
                  simpa using Awaits.served amount _
        | abandon tx' => cases he; exact absurd rfl habandon.1
        | drop tx' => cases he; exact absurd rfl hdrop.1
        | start => simp [Event.tx?] at he
        | insert id balance => simp [Event.tx?] at he
        | inject conflicts => simp [Event.tx?] at he
      · rcases wait?_kept h hw he with ⟨w', hw', hsame⟩
        have hnone : ((s.step e).1.toList.filter fun a => decide (a.tx = tx)) = [] := by
          rw [List.filter_eq_nil_iff]
          intro a ha htx
          rw [Option.mem_toList] at ha
          exact he (of_decide_eq_true htx ▸ tx?_of_answer ha)
        rw [hnone, List.nil_append]
        exact hgoesOn hw' hsame

/-- In every run, a call that has waited and looks at its row again waits on or takes the row and
is served. Whoever is refused has only just made the call that is refused. And what a call is told
from the moment it waits is to wait on until it is served, as long as it is not given up and its
transaction is not dropped. -/
theorem victim_at_first_look (accounts : Table AccountId Account) (events : List Event) :
    let s := (ofAccounts accounts).after events
    (∀ tx r, s.wait? tx = some ⟨r, true⟩ →
      let looked := s.step (.poll tx)
      (looked.1 = some ⟨tx, .request r, .replied .waiting⟩ ∧
          looked.2.wait? tx = some ⟨r, false⟩) ∨
        ∃ amount, looked.1 = some ⟨tx, .request r, .replied (.served amount)⟩ ∧
          looked.2.wait? tx = none ∧ looked.2.locks.holders.get? r.row = some tx) ∧
      (∀ e answer reason, (s.step e).1 = some answer → answer.outcome.refusal? = some reason →
        e = .call answer.tx answer.call ∧ s.wait? answer.tx = none) ∧
      ∀ tx w later, s.wait? tx = some w → Event.abandon tx ∉ later → Event.drop tx ∉ later →
        Awaits tx w.request ((s.answers later).filter fun a => decide (a.tx = tx)) := by
  intro s
  have hcons : s.Consistent := consistent_after (consistent_ofAccounts accounts) events
  have hacyclic : s.locks.Acyclic := acyclic_after (s := ofAccounts accounts) acyclic_empty events
  exact ⟨fun _ _ hw => step_poll hcons hacyclic hw,
    fun _ _ _ hanswer hrefused => refused_new hcons hacyclic hanswer hrefused,
    fun _ _ _ hw habandon hdrop => awaits_answers hcons hacyclic hw habandon hdrop⟩

/-- The second transaction waits for the first account. When it is woken, the fourth one has taken
that account already, and the third one, which holds the other account, has left its mark on it. -/
def overtaken : List Event :=
  [.insert 1 (.ofUInt64 10), .insert 2 (.ofUInt64 10), .start, .start, .start, .start,
    .call 1 (.request (.query 1)), .call 3 (.request (.query 2)), .call 2 (.request (.query 1)),
    .call 3 (.request (.update 1 (.ofUInt64 5))), .abandon 3, .call 1 .commit,
    .call 4 (.request (.query 1))]

-- The fourth transaction closes a cycle over the mark and is refused. The second one waits on, and
-- is served when the fourth one has gone.
theorem victim_at_first_look_overtaken :
    let s := (ofAccounts .empty).after overtaken
    let later : List Event := [.poll 2, .drop 4, .poll 2, .call 2 .commit]
    (s.wait? 2 = some ⟨.query 1, true⟩ ∧ (s.step (.poll 2)).2.wait? 2 = some ⟨.query 1, false⟩) ∧
      ((s.step (.call 4 (.request (.query 2)))).1 =
          some ⟨4, .request (.query 2), .replied (.refused (.deadlock 4 2 3))⟩ ∧
        s.wait? 4 = none) ∧
      Awaits 2 (.query 1) ((s.answers later).filter fun a => decide (a.tx = 2)) := by
  intro s later
  have hwoken : s.wait? 2 = some ⟨.query 1, true⟩ := by decide +kernel
  have hpolled : (s.step (.poll 2)).1 = some ⟨2, .request (.query 1), .replied .waiting⟩ := by
    decide +kernel
  have hrefused : (s.step (.call 4 (.request (.query 2)))).1 =
      some ⟨4, .request (.query 2), .replied (.refused (.deadlock 4 2 3))⟩ := by decide +kernel
  rcases victim_at_first_look .empty overtaken with ⟨hagain, hnew, hawaits⟩
  refine ⟨⟨hwoken, ?_⟩, ⟨hrefused, (hnew _ _ _ hrefused rfl).2⟩,
    hawaits 2 _ later hwoken (by simp [later]) (by simp [later])⟩
  rcases hagain 2 _ hwoken with ⟨_, hwait⟩ | ⟨amount, hserved, _⟩
  · exact hwait
  · rw [hpolled] at hserved
    simp at hserved

end Store

end RowLedger
