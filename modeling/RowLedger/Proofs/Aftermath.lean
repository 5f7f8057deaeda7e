import RowLedger.Proofs.Frame
import RowLedger.Proofs.Serial

/-!
# What transactions leave behind

What a run of the store owes to a transaction. Whatever is about a transaction
leaves the accounts alone, except for its commit, and only a commit that is
answered with success (`Store.Spares`). Such a commit adds to the accounts what
the transaction had buffered, and what it had buffered can be read off its
story: the deltas of the updates it was served, summed up row by row
(`Story.buffered`). After its end a transaction is never open again, so it
commits once at most.

## Main definitions

* `Story.buffered`: The deltas that a story amounts to.
* `Posts`: Deltas are added to accounts.
* `Store.Spares`: Some transactions leave the accounts alone.

## Theorems

* `ended_after`, `uncommitted_of_ended`: What has ended stays ended.
* `uncommitted_of_not_mem`: Who makes no commit does not commit.
* `holder_ne_of_ended`, `waits_of_ended`: What has ended holds no row and waits
  for none.
* `spares_of_uncommitted`: Without a commit the accounts are left alone.
* `buffered_after`: The pending deltas are those of the story.
* `posts_of_commit`: A commit adds what was buffered.
-/

namespace RowLedger

/-- What a call makes of the buffered deltas: an update that was served adds its delta. -/
def Story.buffer (pending : Table AccountId Decimal) :
    Call × Outcome → Table AccountId Decimal
  | (.request (.update row delta), .replied (.served _)) =>
    match ((pending.get? row).getD .zero).add? delta with
    | none => pending
    | some sum => pending.insert row sum
  | _ => pending

/-- The deltas that a story amounts to. -/
def Story.buffered (st : Story) : Table AccountId Decimal := st.foldl Story.buffer .empty

/-- Deltas are added to accounts, each of which has one version more. All other accounts stay. -/
def Posts (deltas : Table AccountId Decimal) (before after : Table AccountId Account) : Prop :=
  ∀ row, match deltas.get? row with
    | none => after.get? row = before.get? row
    | some delta => ∃ account next, before.get? row = some account ∧
        account.balance.add? delta = some next ∧
        after.get? row = some { account with balance := next, version := account.version + 1 }

theorem mem_commitOrder {answers : List Answer} {tx : TxId} :
    tx ∈ commitOrder answers ↔ ⟨tx, .commit, .done⟩ ∈ answers := by
  rw [commitOrder, List.mem_map]
  constructor
  · rintro ⟨⟨tx', c, outcome⟩, ha, rfl⟩
    rcases List.mem_filter.1 ha with ⟨hmem, hcommit⟩
    simp only [Answer.isCommit, Bool.and_eq_true, decide_eq_true_eq] at hcommit
    rcases hcommit with ⟨rfl, rfl⟩
    exact hmem
  · intro hmem
    exact ⟨_, List.mem_filter.2 ⟨hmem, rfl⟩, rfl⟩

namespace Story

/-- Only what was served changes the deltas. -/
theorem buffer_unserved {outcome : Outcome} (h : ∀ amount, outcome ≠ .replied (.served amount))
    (pending : Table AccountId Decimal) (c : Call) : buffer pending (c, outcome) = pending := by
  cases outcome with
  | replied reply =>
      cases reply with
      | served amount => exact absurd rfl (h amount)
      | refused => simp [buffer]
      | waiting => simp [buffer]
  | done => simp [buffer]
  | refused => simp [buffer]

theorem buffered_concat (answers : List Answer) (a : Answer) (tx : TxId) :
    buffered (story (answers ++ [a]) tx) =
      if a.tx = tx then buffer (buffered (story answers tx)) (a.call, a.outcome)
      else buffered (story answers tx) := by
  by_cases htx : a.tx = tx
  · rw [if_pos htx]
    cases hcounts : a.counts with
    | true =>
        rw [← htx, story_concat_same hcounts, buffered, List.foldl_append]
        rfl
    | false =>
        have hunserved : ∀ amount, a.outcome ≠ .replied (.served amount) := by
          intro amount hout
          simp [Answer.counts, hout] at hcounts
        rw [story_concat_uncounted hcounts, buffer_unserved hunserved]
  · rw [if_neg htx, story_concat_other htx]

end Story

namespace OpenTx

theorem serve_buffer (t : OpenTx) (account : Option Account) (r : Request) :
    (t.serve account r).2.pending =
      Story.buffer t.pending (.request r, .replied (t.serve account r).1) := by
  cases r with
  | query row =>
      cases account with
      | none => rfl
      | some account =>
          simp only [serve]
          cases account.balance.add? (t.delta row) with
          | none => rfl
          | some amount => rfl
  | update row delta =>
      simp only [serve]
      cases hsum : (t.delta row).add? delta with
      | none => rfl
      | some sum =>
          rw [OpenTx.delta] at hsum
          simp only [Story.buffer, hsum]

/-- What a transaction is told makes of its deltas what it has them become. -/
theorem alone_buffer (t : OpenTx) (accounts : Table AccountId Account) (r : Request) :
    (t.alone accounts r).2.pending =
      Story.buffer t.pending (.request r, .replied (t.alone accounts r).1) := by
  rw [alone]
  split
  · exact serve_buffer t _ r
  · split
    · cases r with
      | query row => rfl
      | update row delta => rfl
    · exact serve_buffer (t.lock r.row) _ r

end OpenTx

namespace Store

variable {s : Store} {e : Event} {tx : TxId}

/-- Only who was opened before is answered. -/
theorem tx_le_of_answer (hcons : s.Consistent) {a : Answer} (h : (s.step e).1 = some a) :
    a.tx ≤ s.begun := by
  have hstep := stepped s e
  generalize s.step e = result at hstep h
  cases hstep with
  | closed _ hle => exact Option.some.inj h ▸ hle
  | served hlive => exact Option.some.inj h ▸ hcons.live_le _ _ hlive
  | asked hlive => exact Option.some.inj h ▸ hcons.live_le _ _ hlive
  | polled hlive => exact Option.some.inj h ▸ hcons.live_le _ _ hlive
  | rolledBack hlive => exact Option.some.inj h ▸ hcons.live_le _ _ hlive
  | committed hlive => exact Option.some.inj h ▸ hcons.live_le _ _ hlive
  | nothing => simp at h
  | started => simp at h
  | abandoned => simp at h
  | dropped => simp at h
  | inserted => simp at h
  | injected => simp at h

theorem begun_after_le (s : Store) (events : List Event) : s.begun ≤ (s.after events).begun :=
  after_induction (P := fun s' => s.begun ≤ s'.begun) events s (Nat.le_refl _)
    fun s' e _ h => Nat.le_trans h (begun_step_le s' e)

/-- What has ended is not opened again. -/
theorem ended_step (hended : s.live.get? tx = none) (hle : tx ≤ s.begun) (e : Event) :
    (s.step e).2.live.get? tx = none := by
  by_cases he : e.tx? = some tx
  · have hstep := stepped s e
    generalize s.step e = result at hstep
    have hnot : ∀ {other t}, some other = some tx → s.live.get? other ≠ some t := by
      intro other t heq hlive
      rw [Option.some.inj heq, hended] at hlive
      simp at hlive
    cases hstep with
    | nothing => exact hended
    | closed => exact hended
    | started => simp [Event.tx?] at he
    | inserted => simp [Event.tx?] at he
    | injected => simp [Event.tx?] at he
    | served hlive => exact absurd hlive (hnot he)
    | asked hlive => exact absurd hlive (hnot he)
    | polled hlive => exact absurd hlive (hnot he)
    | abandoned hlive => exact absurd hlive (hnot he)
    | dropped hlive => exact absurd hlive (hnot he)
    | rolledBack hlive => exact absurd hlive (hnot he)
    | committed hlive => exact absurd hlive (hnot he)
  · rcases live_step_other hle he with hsame | hwoken
    · rw [hsame, hended]
    · rw [hwoken, hended]
      rfl

theorem ended_after (hended : s.live.get? tx = none) (hle : tx ≤ s.begun) (events : List Event) :
    (s.after events).live.get? tx = none := by
  have hrun : (s.after events).live.get? tx = none ∧ tx ≤ (s.after events).begun := by
    refine after_induction (P := fun s => s.live.get? tx = none ∧ tx ≤ s.begun) events s
      ⟨hended, hle⟩ ?_
    rintro s' e _ ⟨hs, hle'⟩
    exact ⟨ended_step hs hle' e, Nat.le_trans hle' (begun_step_le s' e)⟩
  exact hrun.1

/-- Only an open transaction commits, by a commit that is answered with success. -/
theorem committed_of_answer (h : (s.step e).1 = some ⟨tx, .commit, .done⟩) :
    e = .call tx .commit ∧ ∃ t, s.live.get? tx = some t ∧
      applyAll s.accounts t.pending.entries = .ok (s.step e).2.accounts := by
  have hstep := stepped s e
  generalize s.step e = result at hstep h
  cases hstep with
  | closed _ _ c => cases c <;> simp [Call.whenEnded] at h
  | @committed _ t result hlive _ hend =>
      simp only [Option.some.injEq, Answer.mk.injEq, true_and] at h
      rcases h with ⟨rfl, houtcome⟩
      cases hend with
      | conflict => simp [Outcome.ofResult] at houtcome
      | rejected => simp [Outcome.ofResult] at houtcome
      | applied _ hall => exact ⟨rfl, t, hlive, hall⟩
  | served => simp at h
  | asked => simp at h
  | polled => simp at h
  | rolledBack => simp at h
  | nothing => simp at h
  | started => simp at h
  | abandoned => simp at h
  | dropped => simp at h
  | inserted => simp at h
  | injected => simp at h

/-- Who commits in a run has committed at some event of it. -/
theorem exists_commit {events : List Event} (h : tx ∈ commitOrder (s.answers events)) :
    ∃ before e later, events = before ++ e :: later ∧
      ((s.after before).step e).1 = some ⟨tx, .commit, .done⟩ := by
  rw [mem_commitOrder] at h
  induction events generalizing s with
  | nil => simp [answers] at h
  | cons e rest ih =>
      rw [answers, List.mem_append, Option.mem_toList] at h
      rcases h with h | h
      · exact ⟨[], e, rest, rfl, h⟩
      · rcases ih h with ⟨before, e', later, rfl, hanswer⟩
        exact ⟨e :: before, e', later, rfl, hanswer⟩

/-- What has ended does not commit any more. -/
theorem uncommitted_of_ended (hended : s.live.get? tx = none) (hle : tx ≤ s.begun)
    (events : List Event) : tx ∉ commitOrder (s.answers events) := by
  intro hmem
  rcases exists_commit hmem with ⟨before, e, later, _, hanswer⟩
  rcases committed_of_answer hanswer with ⟨_, t, hlive, _⟩
  rw [ended_after hended hle before] at hlive
  simp at hlive

/-- Who makes no commit does not commit. -/
theorem uncommitted_of_not_mem {events : List Event} (h : Event.call tx .commit ∉ events) :
    tx ∉ commitOrder (s.answers events) := by
  intro hmem
  rcases exists_commit hmem with ⟨before, e, later, rfl, hanswer⟩
  rcases committed_of_answer hanswer with ⟨rfl, _⟩
  simp at h

theorem uncommitted_append {first second : List Event}
    (hfirst : tx ∉ commitOrder (s.answers first))
    (hsecond : tx ∉ commitOrder ((s.after first).answers second)) :
    tx ∉ commitOrder (s.answers (first ++ second)) := by
  rw [answers_append, commitOrder_append, List.mem_append, not_or]
  exact ⟨hfirst, hsecond⟩

/-- What has ended holds no row. -/
theorem holder_ne_of_ended (h : s.Consistent) (hended : s.live.get? tx = none) (row : AccountId) :
    s.locks.holders.get? row ≠ some tx := by
  intro hheld
  rcases (h.holder_iff row tx).1 hheld with ⟨t, hlive, _⟩
  rw [hended] at hlive
  simp at hlive

/-- What has ended waits for none. -/
theorem waits_of_ended (h : s.Consistent) (hended : s.live.get? tx = none) :
    s.locks.waits.get? tx = none := by
  cases hwait : s.locks.waits.get? tx with
  | none => rfl
  | some row =>
      rcases h.wait_open tx row hwait with ⟨t, hlive, _⟩
      rw [hended] at hlive
      simp at hlive

theorem tx_le_of_answers (hcons : s.Consistent) (events : List Event) :
    ∀ a ∈ s.answers events, a.tx ≤ (s.after events).begun := by
  induction events generalizing s with
  | nil => simp [answers]
  | cons e rest ih =>
      intro a ha
      rw [answers, List.mem_append, Option.mem_toList] at ha
      rcases ha with ha | ha
      · exact Nat.le_trans (tx_le_of_answer hcons ha)
          (begun_after_le s (e :: rest))
      · exact ih (consistent_step hcons e) a ha

/-- Whatever is about these transactions leaves the accounts alone. -/
def Spares (s : Store) (mine : List TxId) (events : List Event) : Prop :=
  ∀ before e later tx, events = before ++ e :: later → e.tx? = some tx → tx ∈ mine →
    ((s.after before).step e).2.accounts = (s.after before).accounts

/-- Who does not commit leaves the accounts alone. -/
theorem spares_of_uncommitted {mine : List TxId} {events : List Event}
    (h : ∀ tx ∈ mine, tx ∉ commitOrder (s.answers events)) : s.Spares mine events := by
  rintro before e later tx rfl htx hmine
  have hins : ∀ id balance, e ≠ .insert id balance := by
    rintro id balance rfl
    simp [Event.tx?] at htx
  rcases accounts_step (s := s.after before) hins with hsame | ⟨other, t, rfl, _, hanswer, _⟩
  · exact hsame
  · have hother : other = tx := Option.some.inj htx
    refine absurd ?_ (h tx hmine)
    rw [mem_commitOrder, answers_append, answers, hanswer, hother]
    simp

/-- What is known of a run: who was answered had been opened, and the deltas of who was opened in
it are those of its story. -/
structure Told (first : Nat) (answers : List Answer) (s : Store) : Prop where
  consistent : s.Consistent
  later : first ≤ s.begun
  known : ∀ a ∈ answers, a.tx ≤ s.begun
  pending : ∀ tx t, first < tx → s.live.get? tx = some t →
    t.pending = Story.buffered (story answers tx)

section Told

variable {first : Nat} {answers : List Answer} {s' : Store} {t : OpenTx}

/-- An event that is not answered changes no deltas. -/
theorem told_keep (h : s.Told first answers) (hcons : s'.Consistent) (hbegun : s.begun ≤ s'.begun)
    (hlive : ∀ tx t', s'.live.get? tx = some t' →
      (∃ t, s.live.get? tx = some t ∧ t'.pending = t.pending) ∨
        (s.begun < tx ∧ t'.pending = .empty)) : s'.Told first answers where
  consistent := hcons
  later := Nat.le_trans h.later hbegun
  known a ha := Nat.le_trans (h.known a ha) hbegun
  pending tx t' hnew ht' := by
    rcases hlive tx t' ht' with ⟨t, ht, hsame⟩ | ⟨hlate, hempty⟩
    · rw [hsame, h.pending tx t hnew ht]
    · rw [hempty, story_eq_nil]
      · rfl
      · exact fun a ha heq => absurd (heq ▸ h.known a ha) (Nat.not_le.2 hlate)

/-- An answer changes the deltas of its own transaction at most. -/
theorem told_concat (h : s.Told first answers) (hcons : s'.Consistent) (hbegun : s'.begun = s.begun)
    {a : Answer} (hle : a.tx ≤ s.begun)
    (hown : ∀ t', s'.live.get? a.tx = some t' → ∃ t, s.live.get? a.tx = some t ∧
      t'.pending = Story.buffer t.pending (a.call, a.outcome))
    (hothers : ∀ tx t', a.tx ≠ tx → s'.live.get? tx = some t' →
      ∃ t, s.live.get? tx = some t ∧ t'.pending = t.pending) :
    s'.Told first (answers ++ [a]) where
  consistent := hcons
  later := hbegun ▸ h.later
  known := hbegun ▸ known_concat h.known hle
  pending tx t' hnew ht' := by
    rw [Story.buffered_concat]
    by_cases htx : a.tx = tx
    · subst htx
      rcases hown t' ht' with ⟨t, ht, hpending⟩
      rw [if_pos rfl, hpending, h.pending a.tx t hnew ht]
    · rcases hothers tx t' htx ht' with ⟨t, ht, hpending⟩
      rw [if_neg htx, hpending, h.pending tx t hnew ht]

/-- The end of a transaction changes no deltas of the others. -/
theorem pending_release (hlive : s.live.get? tx = some t) {other : TxId} {o : OpenTx}
    (ho : (s.release tx).live.get? other = some o) :
    tx ≠ other ∧ ∃ o₀, s.live.get? other = some o₀ ∧ o.pending = o₀.pending := by
  rcases live_release_cases hlive ho with ⟨hne, o₀, ho₀, rfl⟩
  exact ⟨hne, o₀, ho₀, rfl⟩

theorem told_answered (h : s.Told first answers) (hlive : s.live.get? tx = some t) {r : Request}
    {result : Reply × Store} (hcons : result.2.Consistent)
    (hanswered : Answered s tx t r result) :
    result.2.Told first (answers ++ [⟨tx, .request r, .replied result.1⟩]) := by
  have hle := h.consistent.live_le tx t hlive
  have hothers : ∀ {t' : OpenTx} {locks : RowLocks} (other : TxId) (o : OpenTx), tx ≠ other →
      (s.put tx t' locks).live.get? other = some o →
      ∃ o₀, s.live.get? other = some o₀ ∧ o.pending = o₀.pending := by
    intro t' locks other o hne ho
    rw [put_live, if_neg hne] at ho
    exact ⟨o, ho, rfl⟩
  -- A request that was not served has left the deltas as they were.
  have hunserved : ∀ (t' : OpenTx) {locks : RowLocks} {reply : Reply}, t'.pending = t.pending →
      (∀ amount, reply ≠ .served amount) → (s.put tx t' locks).Consistent →
      (s.put tx t' locks).Told first (answers ++ [⟨tx, .request r, .replied reply⟩]) := by
    intro t' locks reply hsame hreply hcons
    refine told_concat h hcons rfl hle ?_ hothers
    intro t'' ht''
    rw [put_live, if_pos rfl, Option.some.injEq] at ht''
    refine ⟨t, hlive, ?_⟩
    rw [← ht'', hsame, Story.buffer_unserved]
    exact fun amount heq => hreply amount (Outcome.replied.inj heq)
  cases hanswered with
  | alone locks =>
      refine told_concat h hcons rfl hle ?_ hothers
      intro t' ht'
      rw [put_live, if_pos rfl, Option.some.injEq] at ht'
      exact ⟨t, hlive, ht' ▸ OpenTx.alone_buffer t.idle s.accounts r⟩
  | cycle => exact hunserved t.idle rfl (by simp) hcons
  | waiting =>
      exact hunserved { t with blocked := some ⟨r, false⟩ } rfl (by simp) hcons

/-- A transaction ends and is told how. -/
theorem told_ended (h : s.Told first answers) (hlive : s.live.get? tx = some t) {c : Call}
    {outcome : Outcome} (hcons : s'.Consistent) (hbegun : s'.begun = s.begun)
    (hlive' : s'.live = (s.release tx).live) :
    s'.Told first (answers ++ [⟨tx, c, outcome⟩]) := by
  refine told_concat h hcons hbegun (h.consistent.live_le tx t hlive) ?_ ?_
  · intro t' ht'
    rw [hlive'] at ht'
    exact absurd rfl (pending_release hlive ht').1
  · intro other o _ ho
    rw [hlive'] at ho
    exact (pending_release hlive ho).2

theorem told_step (h : s.Told first answers) (e : Event) :
    (s.step e).2.Told first (answers ++ (s.step e).1.toList) := by
  have hcons := consistent_step h.consistent e
  have hstep := stepped s e
  generalize s.step e = result at hstep hcons
  have hquiet : ∀ {s' : Store}, s'.Consistent → s.begun ≤ s'.begun →
      (∀ tx t', s'.live.get? tx = some t' →
        (∃ t, s.live.get? tx = some t ∧ t'.pending = t.pending) ∨
          (s.begun < tx ∧ t'.pending = .empty)) →
      s'.Told first (answers ++ (none : Option Answer).toList) := by
    intro s' hcons hbegun hlive
    rw [Option.toList_none, List.append_nil]
    exact told_keep h hcons hbegun hlive
  cases hstep with
  | nothing => exact hquiet hcons (Nat.le_refl _) fun _ t ht => Or.inl ⟨t, ht, rfl⟩
  | injected => exact hquiet hcons (Nat.le_refl _) fun _ t ht => Or.inl ⟨t, ht, rfl⟩
  | inserted => exact hquiet hcons (Nat.le_refl _) fun _ t ht => Or.inl ⟨t, ht, rfl⟩
  | started =>
      refine hquiet hcons (Nat.le_succ _) ?_
      intro tx t ht
      rcases live_start_cases ht with ⟨rfl, rfl⟩ | hold
      · exact Or.inr ⟨Nat.lt_succ_self _, rfl⟩
      · exact Or.inl ⟨t, hold, rfl⟩
  | @abandoned tx t hlive =>
      refine hquiet hcons (Nat.le_refl _) ?_
      intro other o ho
      rcases live_put_cases ho with ⟨rfl, rfl⟩ | ⟨_, hold⟩
      · exact Or.inl ⟨t, hlive, rfl⟩
      · exact Or.inl ⟨o, hold, rfl⟩
  | @dropped tx _ hlive =>
      refine hquiet hcons (Nat.le_of_eq (release_begun s tx).symm) ?_
      exact fun other o ho => Or.inl (pending_release hlive ho).2
  | @closed tx hended hle c =>
      refine told_concat h hcons rfl hle ?_ fun other o _ ho => ⟨o, ho, rfl⟩
      intro t' ht'
      rw [hended] at ht'
      simp at ht'
  | served hlive hidle hheld => exact told_answered h hlive hcons (answered_of_held hidle hheld)
  | asked hlive _ hnew hlook =>
      exact told_answered h hlive hcons (answered_of_examined hnew hlook)
  | polled hlive hwoken hlook =>
      exact told_answered h hlive hcons
        (answered_of_examined (h.consistent.blocked_new hlive hwoken) hlook)
  | @rolledBack tx _ hlive => exact told_ended h hlive hcons (release_begun s tx) rfl
  | @committed tx _ _ hlive _ hend =>
      cases hend with
      | conflict => exact told_ended h hlive hcons (release_begun s tx) rfl
      | rejected => exact told_ended h hlive hcons (release_begun s tx) rfl
      | applied => exact told_ended h hlive hcons (release_begun s tx) rfl

-- Induction on the run from its start, so the answers given so far are part of the statement.
theorem told_after (h : s.Told first answers) (events : List Event) :
    (s.after events).Told first (answers ++ s.answers events) := by
  induction events generalizing answers s with
  | nil =>
      rw [Store.answers, List.append_nil]
      exact h
  | cons e rest ih =>
      have := ih (told_step h e)
      rwa [List.append_assoc] at this

end Told

/-- The pending deltas of a transaction that was opened in a run are those of its story. -/
theorem buffered_after (hcons : s.Consistent) (events : List Event) {t : OpenTx}
    (hnew : s.begun < tx) (hlive : (s.after events).live.get? tx = some t) :
    t.pending = Story.buffered (story (s.answers events) tx) := by
  have hfirst : s.Told s.begun [] := by
    refine ⟨hcons, Nat.le_refl _, by simp, ?_⟩
    intro tx t hlt ht
    exact absurd (hcons.live_le tx t ht) (Nat.not_le.2 hlt)
  exact (told_after hfirst events).pending tx t hnew hlive

/-- What applying deltas does to accounts that are all there. -/
theorem posts_of_applyAll {accounts accounts' : Table AccountId Account}
    {deltas : Table AccountId Decimal} (hall : applyAll accounts deltas.entries = .ok accounts')
    (hthere : ∀ row, (deltas.get? row).isSome = true → (accounts.get? row).isSome = true) :
    Posts deltas accounts accounts' := by
  intro row
  cases hget : deltas.get? row with
  | none =>
      refine get?_applyAll_other hall ?_
      rintro e he rfl
      rw [(Table.mem_entries_iff _ e.1 e.2).1 he] at hget
      simp at hget
  | some delta =>
      rcases Option.isSome_iff_exists.1 (hthere row (by rw [hget]; rfl)) with ⟨account, haccount⟩
      have hentry := (Table.mem_entries_iff _ _ _).2 hget
      rcases get?_applyAll deltas.ascending hall hentry haccount with
        ⟨new, hnew, hafter⟩
      rw [applied] at hnew
      cases hnext : account.balance.add? delta with
      | none => simp [hnext] at hnew
      | some next =>
          cases hnegative : next.isNegative with
          | true => simp [hnext, hnegative] at hnew
          | false =>
              simp only [hnext, hnegative, Bool.false_eq_true, if_false, Except.ok.injEq] at hnew
              exact ⟨account, next, haccount, hnext, hnew ▸ hafter⟩

/-- A commit of a transaction that was opened in a run adds what its story amounts to. -/
theorem posts_of_commit (hcons : s.Consistent) {before : List Event} (hnew : s.begun < tx)
    (hdone : ((s.after before).step (.call tx .commit)).1 = some ⟨tx, .commit, .done⟩) :
    Posts (Story.buffered (story (s.answers before) tx)) (s.after before).accounts
      ((s.after before).step (.call tx .commit)).2.accounts := by
  rcases committed_of_answer hdone with ⟨_, t, hlive, hall⟩
  have hcons' := consistent_after hcons before
  rw [← buffered_after hcons before hnew hlive]
  refine posts_of_applyAll hall ?_
  intro row hpending
  exact held_exists_of_mem hcons' hlive (hcons'.pending_held tx t row hlive hpending)

end Store

end RowLedger
