import RowLedger.Proofs.Aftermath
import RowLedger.Proofs.Victims

/-!
# What a deadlock leaves open

A request that would close a cycle is refused, and that is all that happens to
its transaction. Nothing is taken back and nothing is ended: the rows stay with
it, its deltas stay pending, and it may go on. So it is up to whoever has opened
it to roll it back. As long as it makes no commit, or none that succeeds, it
changes no account. If it does commit, then that adds all that it has buffered,
what it had buffered before it was refused and what came after that.

## Theorems

* `Story.buffered_append`: The deltas of a story go on from those of its
  beginning.
* `step_deadlock`: The refusal takes a mark away and leaves the rest as it is.
* `open_after_deadlock`: What the transaction can do to the accounts later.
* `open_after_deadlock_commits`: It can commit.
-/

namespace RowLedger

/-- A call that met a conflict is no part of the story. -/
theorem Answer.counts_of_conflict {a : Answer} {reason : Refusal}
    (hrefused : a.outcome.refusal? = some reason) (hconflict : reason.isConflict = true) :
    a.counts = false := by
  rcases a with ⟨tx, c, outcome⟩
  cases outcome with
  | done => simp [Outcome.refusal?] at hrefused
  | refused other =>
      cases Option.some.inj hrefused
      simp [counts, hconflict]
  | replied reply =>
      cases Outcome.refusal?_replied.1 hrefused
      simp [counts, hconflict]

/-- The deltas of a story go on from those that its beginning amounts to. -/
theorem Story.buffered_append (first second : Story) :
    Story.buffered (first ++ second) = second.foldl Story.buffer (Story.buffered first) :=
  List.foldl_append

namespace Store

variable {s : Store}

/-- A refusal for a deadlock takes away the mark of an old wait, and leaves the rest as it is. -/
theorem step_deadlock (h : s.Consistent) (hacyclic : s.locks.Acyclic) {e : Event} {answer : Answer}
    {row : AccountId} {tx holder : TxId} (hanswer : (s.step e).1 = some answer)
    (hrefused : answer.outcome.refusal? = some (.deadlock tx row holder)) :
    ∃ t, s.live.get? answer.tx = some t ∧
      (s.step e).2 = s.put answer.tx t (s.locks.stopWaiting answer.tx) := by
  -- It has only just asked for the row, so no call of it waits.
  rcases refused_new h hacyclic hanswer hrefused with ⟨rfl, _⟩
  rcases refused_deadlock h hanswer hrefused with ⟨_, ⟨r, hcall, _⟩, _⟩
  rcases answer with ⟨asker, c, outcome⟩
  subst hcall
  have hstep := stepped s (.call asker (.request r))
  generalize s.step (.call asker (.request r)) = result at hstep hanswer
  cases hstep with
  | nothing => simp at hanswer
  | closed =>
      cases Option.some.inj hanswer
      simp [Call.whenEnded, Outcome.refusal?] at hrefused
  | served =>
      cases Option.some.inj hanswer
      exact absurd (Outcome.refusal?_replied.1 hrefused) (OpenTx.serve_ne_deadlock _ _ _ _ _ _)
  | @asked _ t _ _ hlive hidle _ hlook =>
      cases Option.some.inj hanswer
      have hreply := Outcome.refusal?_replied.1 hrefused
      refine ⟨t, hlive, ?_⟩
      cases hlook with
      | absent => simp at hreply
      | granted => exact absurd hreply (OpenTx.serve_ne_deadlock _ _ _ _ _ _)
      | cycle => rw [OpenTx.idle_of_unblocked hidle]
      | waiting => simp at hreply

/-- A transaction that is refused with a deadlock stays as it is, with its rows and its deltas, and
so do the accounts. Later it changes an account only by a commit that succeeds, and this commit adds
the deltas it had at the refusal together with those it was served since then. -/
theorem open_after_deadlock (accounts : Table AccountId Account) (events : List Event) (e : Event)
    (answer : Answer) (reason : Refusal) (text : String)
    (hanswer : (((ofAccounts accounts).after events).step e).1 = some answer)
    (hrefused : answer.outcome.refusal? = some reason)
    (hcode : reason.toFault = .conflict deadlockCode text) :
    let s := (ofAccounts accounts).after events
    let refused := (s.step e).2
    refused.accounts = s.accounts ∧ refused.locks.holders = s.locks.holders ∧
      (∀ tx, refused.live.get? tx = s.live.get? tx) ∧
      ∃ t, s.live.get? answer.tx = some t ∧ ∀ later next,
        let s' := refused.after later
        let told := story (refused.answers later) answer.tx
        (next.tx? = some answer.tx → (s'.step next).1 ≠ some ⟨answer.tx, .commit, .done⟩ →
          (s'.step next).2.accounts = s'.accounts) ∧
        ((s'.step next).1 = some ⟨answer.tx, .commit, .done⟩ →
          Posts (told.foldl Story.buffer t.pending) s'.accounts (s'.step next).2.accounts) := by
  intro s refused
  have hstart := consistent_ofAccounts accounts
  have hcons : s.Consistent := consistent_after hstart events
  have hacyclic : s.locks.Acyclic := acyclic_after (s := ofAccounts accounts) acyclic_empty events
  rcases Refusal.eq_deadlock hcode with ⟨tx, row, holder, rfl⟩
  rcases step_deadlock hcons hacyclic hanswer hrefused with ⟨t, hlive, hput⟩
  have hlives : ∀ other, refused.live.get? other = s.live.get? other := by
    intro other
    rw [show refused = _ from hput, put_live]
    split
    · rename_i heq
      rw [← heq, hlive]
    · rfl
  have hnew : (ofAccounts accounts).begun < answer.tx := by
    rw [← Nat.not_le]
    intro hle
    have hended : s.live.get? answer.tx = none := ended_after rfl hle events
    simp [hlive] at hended
  have hpending := buffered_after hstart events hnew hlive
  refine ⟨by rw [show refused = _ from hput]; rfl, by rw [show refused = _ from hput]; rfl, hlives,
    t, hlive, ?_⟩
  intro later next s' told
  refine ⟨?_, ?_⟩
  · intro hown hnot
    have hins : ∀ id balance, next ≠ .insert id balance := by
      rintro id balance rfl
      simp [Event.tx?] at hown
    rcases accounts_step (s := s') hins with hsame | ⟨other, _, rfl, _, hdone, _⟩
    · exact hsame
    · rw [Event.tx?, Option.some.injEq] at hown
      exact absurd (hown ▸ hdone) hnot
  · intro hdone
    rcases committed_of_answer hdone with ⟨rfl, _⟩
    have hrun : s' = (ofAccounts accounts).after (events ++ e :: later) := by
      rw [after_append, after_cons]
    have hposts := posts_of_commit hstart hnew (hrun ▸ hdone)
    -- The refusal itself is no part of the story.
    have hquiet : story (s.step e).1.toList answer.tx = [] := by
      rw [hanswer, Option.toList_some, story_singleton, Answer.counts_of_conflict hrefused rfl]
      simp
    rw [← hrun, answers_append, answers, story_append, story_append, hquiet, List.nil_append,
      Story.buffered_append, ← hpending] at hposts
    exact hposts

/-- Two accounts and two transactions, each of which holds one of them, and the first one has
buffered a delta for its own. The second one waits for the account of the first. -/
def laden : List Event :=
  [.insert 1 (.ofUInt64 10), .insert 2 (.ofUInt64 10), .start, .start,
    .call 1 (.request (.update 1 (.ofInt64 (-3)))), .call 2 (.request (.query 2)),
    .call 2 (.request (.query 1))]

theorem open_after_deadlock_laden :
    let s := (ofAccounts .empty).after laden
    let refused := s.step (.call 1 (.request (.query 2)))
    let last := refused.2.step (.call 1 .commit)
    refused.1 = some ⟨1, .request (.query 2), .replied (.refused (.deadlock 1 2 2))⟩ ∧
      refused.2.accounts = s.accounts ∧ last.1 = some ⟨1, .commit, .done⟩ ∧
      Posts (Table.empty.insert 1 (.ofInt64 (-3))) s.accounts last.2.accounts := by
  intro s refused last
  have hanswer : refused.1 =
      some ⟨1, .request (.query 2), .replied (.refused (.deadlock 1 2 2))⟩ := by decide +kernel
  have hdone : last.1 = some ⟨1, .commit, .done⟩ := by decide +kernel
  rcases open_after_deadlock .empty laden _ _ (.deadlock 1 2 2) _ hanswer rfl rfl with
    ⟨haccounts, _, _, t, hlive, hlater⟩
  have hposts := (hlater [] (.call 1 .commit)).2 hdone
  have hpending : (s.live.get? 1).map OpenTx.pending =
      some (Table.empty.insert 1 (.ofInt64 (-3))) := by decide +kernel
  rw [hlive, Option.map_some, Option.some.injEq] at hpending
  refine ⟨hanswer, haccounts, hdone, ?_⟩
  rw [hpending] at hposts
  exact haccounts ▸ hposts

/-- A transaction that was refused with a deadlock may still change an account. -/
theorem open_after_deadlock_commits :
    ¬ ∀ (accounts : Table AccountId Account) (events : List Event) (e : Event) (answer : Answer)
      (reason : Refusal) (text : String) (later : List Event) (c : Call),
      (((ofAccounts accounts).after events).step e).1 = some answer →
      answer.outcome.refusal? = some reason → reason.toFault = .conflict deadlockCode text →
      let s := (ofAccounts accounts).after (events ++ e :: later)
      (s.step (.call answer.tx c)).2.accounts = s.accounts := by
  intro hkept
  have hanswer : (((ofAccounts .empty).after laden).step (.call 1 (.request (.query 2)))).1 =
      some ⟨1, .request (.query 2), .replied (.refused (.deadlock 1 2 2))⟩ := by decide +kernel
  have hsame := hkept .empty laden _ _ (.deadlock 1 2 2) _ [] .commit hanswer rfl rfl
  have hchanged : let s := (ofAccounts .empty).after (laden ++ [.call 1 (.request (.query 2))])
      (s.step (.call 1 .commit)).2.accounts ≠ s.accounts := by decide +kernel
  exact hchanged hsame

end Store

end RowLedger
