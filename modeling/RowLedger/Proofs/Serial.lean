import RowLedger.Proofs.Frame
import RowLedger.Store.Replay

/-!
# Serial order

The transactions that commit in a run form a chain. In the order of their
commits, what each of them was told is true of the accounts that the one before
it has left, and its own deltas make the accounts that the next one finds.

The reason is that a transaction holds all rows it has been told about until it
ends. What it was told so far is therefore not only true of the accounts at the
time it asked: it is what it would be told if it asked everything again now
(`Story.Open`). That survives the commits of others, which leave the rows of
this one alone, and up to its own commit. So at its commit its whole story is
true of the accounts before, and these are the accounts after the commit before
it (`Story.Chain`).

## Main definitions

* `OpenTx.aloneAll`: Requests one after another with nobody in the way.
* `Story.Open`, `Story.Ended`: A story is true of given accounts.
* `Story.Chain`: Stories that lead from some accounts to others.
* `Store.Serial`: A run so far is a chain of stories.

## Theorems

* `aloneAll_congr`: What is told depends on the rows that end up held.
* `serial_step`, `serial_after`: Every run is a chain of stories.
-/

namespace RowLedger

namespace OpenTx

/-- Requests one after another with nobody in the way. -/
def aloneAll (t : OpenTx) (accounts : Table AccountId Account) :
    List Request → List Reply × OpenTx
  | [] => ([], t)
  | r :: rest =>
    let (reply, t) := t.alone accounts r
    let (replies, t) := t.aloneAll accounts rest
    (reply :: replies, t)

variable {accounts accounts' : Table AccountId Account}

theorem aloneAll_cons (t : OpenTx) (r : Request) (rest : List Request) :
    t.aloneAll accounts (r :: rest) =
      ((t.alone accounts r).1 :: ((t.alone accounts r).2.aloneAll accounts rest).1,
        ((t.alone accounts r).2.aloneAll accounts rest).2) := rfl

theorem aloneAll_concat (t : OpenTx) (rs : List Request) (r : Request) :
    t.aloneAll accounts (rs ++ [r]) =
      ((t.aloneAll accounts rs).1 ++ [((t.aloneAll accounts rs).2.alone accounts r).1],
        ((t.aloneAll accounts rs).2.alone accounts r).2) := by
  induction rs generalizing t with
  | nil => rfl
  | cons first rest ih =>
      rw [List.cons_append, aloneAll_cons, ih, aloneAll_cons]
      rfl

theorem aloneAll_held {t : OpenTx} {rs : List Request} {row : AccountId} (h : row ∈ t.held) :
    row ∈ (t.aloneAll accounts rs).2.held := by
  induction rs generalizing t with
  | nil => exact h
  | cons r rest ih =>
      rw [aloneAll_cons]
      exact ih (alone_held h)

section Congruence

variable (hdom : ∀ row, (accounts'.get? row).isSome = (accounts.get? row).isSome)
include hdom

-- A row that is new has to exist before it is locked, so the domains have to be equal, too: the
-- refusal for want of an account is told without any lock.
/-- What a transaction is told depends on the rows that it then holds, and on which rows exist. -/
theorem alone_congr {t : OpenTx} {r : Request}
    (hsame : ∀ row ∈ (t.alone accounts r).2.held, accounts'.get? row = accounts.get? row) :
    t.alone accounts' r = t.alone accounts r := by
  by_cases hheld : r.row ∈ t.held
  · have := hsame r.row (alone_held hheld)
    rw [alone, alone, if_pos hheld, if_pos hheld, this]
  · cases hrow : accounts.get? r.row with
    | none =>
        have hrow' : accounts'.get? r.row = none := by
          have := hdom r.row
          rw [hrow] at this
          simpa using this
        rw [alone, alone, if_neg hheld, if_neg hheld, hrow, hrow']
    | some account =>
        have hlocked : r.row ∈ (t.alone accounts r).2.held := by
          rw [alone, if_neg hheld, hrow]
          simp only
          rw [serve_held, lock_held]
          exact List.mem_append_right _ List.mem_cons_self
        have hrow' := hsame r.row hlocked
        rw [alone, alone, if_neg hheld, if_neg hheld, hrow', hrow]

-- Rows stay locked to the end, so the rows of the last record are those of all requests.
theorem aloneAll_congr {t : OpenTx} {rs : List Request}
    (hsame : ∀ row ∈ (t.aloneAll accounts rs).2.held, accounts'.get? row = accounts.get? row) :
    t.aloneAll accounts' rs = t.aloneAll accounts rs := by
  induction rs generalizing t with
  | nil => rfl
  | cons r rest ih =>
      rw [aloneAll_cons] at hsame
      have hfirst : t.alone accounts' r = t.alone accounts r :=
        alone_congr hdom fun row hrow => hsame row (aloneAll_held hrow)
      rw [aloneAll_cons, aloneAll_cons, hfirst, ih hsame]

end Congruence

end OpenTx

namespace Story

/-- The story is what a transaction would be told now if it asked everything again, and the
transaction would then be as it is. -/
def Open (accounts : Table AccountId Account) (t : OpenTx) (st : Story) : Prop :=
  ∃ dialog : List (Request × Reply),
    st = dialog.map (fun d => (.request d.1, .replied d.2)) ∧
      OpenTx.fresh.aloneAll accounts (dialog.map (·.1)) = (dialog.map (·.2), t)

/-- The story ends in a commit, which makes new accounts of the old ones. What is said later falls
on deaf ears. -/
def Ended (accounts accounts' : Table AccountId Account) (st : Story) : Prop :=
  ∃ (t : OpenTx) (before : Story) (late : List Call), Open accounts t before ∧
    Store.applyAll accounts t.pending.entries = .ok accounts' ∧
    st = before ++ (.commit, .done) :: late.map fun c => (c, c.whenEnded)

/-- Stories that lead from some accounts to others. -/
def Chain : Table AccountId Account → List Story → Table AccountId Account → Prop
  | accounts, [], last => accounts = last
  | accounts, st :: rest, last => ∃ next, Ended accounts next st ∧ Chain next rest last

theorem open_nil (accounts : Table AccountId Account) : Open accounts .fresh [] := ⟨[], rfl, rfl⟩

theorem open_concat {accounts : Table AccountId Account} {t : OpenTx} {st : Story}
    (h : Open accounts t st) (r : Request) :
    Open accounts (t.alone accounts r).2
      (st ++ [(.request r, .replied (t.alone accounts r).1)]) := by
  rcases h with ⟨dialog, rfl, htold⟩
  refine ⟨dialog ++ [(r, (t.alone accounts r).1)], ?_, ?_⟩
  · rw [List.map_append]
    rfl
  · rw [List.map_append, List.map_append, List.map_singleton, OpenTx.aloneAll_concat, htold]
    rfl

/-- A story stays true if the rows under lock do and no account comes or goes. -/
theorem open_congr {accounts accounts' : Table AccountId Account} {t : OpenTx} {st : Story}
    (h : Open accounts t st)
    (hdom : ∀ row, (accounts'.get? row).isSome = (accounts.get? row).isSome)
    (hsame : ∀ row ∈ t.held, accounts'.get? row = accounts.get? row) : Open accounts' t st := by
  rcases h with ⟨dialog, hst, htold⟩
  refine ⟨dialog, hst, ?_⟩
  rw [OpenTx.aloneAll_congr hdom, htold]
  rw [htold]
  exact hsame

/-- What is said after the end adds nothing. -/
theorem ended_concat {accounts accounts' : Table AccountId Account} {st : Story}
    (h : Ended accounts accounts' st) (c : Call) :
    Ended accounts accounts' (st ++ [(c, c.whenEnded)]) := by
  rcases h with ⟨t, before, late, hopen, hall, rfl⟩
  refine ⟨t, before, late ++ [c], hopen, hall, ?_⟩
  rw [List.map_append, List.append_assoc]
  rfl

theorem chain_concat {accounts middle last : Table AccountId Account} {sts : List Story}
    {st : Story} (h : Chain accounts sts middle) (hend : Ended middle last st) :
    Chain accounts (sts ++ [st]) last := by
  induction sts generalizing accounts with
  | nil =>
      rw [Chain] at h
      exact ⟨last, h ▸ hend, rfl⟩
  | cons first rest ih =>
      rcases h with ⟨next, hfirst, hrest⟩
      exact ⟨next, hfirst, ih hrest⟩

/-- A chain stays one if each story is exchanged for one with the same effect. -/
theorem chain_map {accounts last : Table AccountId Account} {txs : List TxId}
    {f g : TxId → Story} (h : Chain accounts (txs.map f) last)
    (hfg : ∀ tx ∈ txs, ∀ a b, Ended a b (f tx) → Ended a b (g tx)) :
    Chain accounts (txs.map g) last := by
  induction txs generalizing accounts with
  | nil => exact h
  | cons tx rest ih =>
      rcases h with ⟨next, hfirst, hrest⟩
      refine ⟨next, hfg tx List.mem_cons_self _ _ hfirst, ih hrest ?_⟩
      exact fun tx' htx' => hfg tx' (List.mem_cons_of_mem _ htx')

end Story

theorem story_append (first second : List Answer) (tx : TxId) :
    story (first ++ second) tx = story first tx ++ story second tx := by
  rw [story, List.filter_append, List.map_append]
  rfl

theorem commitOrder_append (first second : List Answer) :
    commitOrder (first ++ second) = commitOrder first ++ commitOrder second := by
  rw [commitOrder, List.filter_append, List.map_append]
  rfl

/-- An answer is no part of the story of another transaction, and none at all if it does not
count. -/
theorem story_singleton (a : Answer) (tx : TxId) :
    story [a] tx = if a.tx = tx ∧ a.counts = true then [(a.call, a.outcome)] else [] := by
  by_cases htx : a.tx = tx
  · cases hc : a.counts with
    | true => simp [story, htx, hc]
    | false => simp [story, hc]
  · simp [story, htx]

theorem commitOrder_singleton (a : Answer) :
    commitOrder [a] = if a.isCommit = true then [a.tx] else [] := by
  cases hc : a.isCommit with
  | true => simp [commitOrder, hc]
  | false => simp [commitOrder, hc]

theorem exists_answer_of_commitOrder {answers : List Answer} {tx : TxId}
    (h : tx ∈ commitOrder answers) : ∃ a ∈ answers, a.tx = tx := by
  rw [commitOrder, List.mem_map] at h
  rcases h with ⟨a, ha, hatx⟩
  exact ⟨a, (List.mem_filter.1 ha).1, hatx⟩

theorem story_eq_nil {answers : List Answer} {tx : TxId} (h : ∀ a ∈ answers, a.tx ≠ tx) :
    story answers tx = [] := by
  rw [story, List.map_eq_nil_iff, List.filter_eq_nil_iff]
  intro a ha
  simp [h a ha]

theorem story_concat_other {a : Answer} {tx : TxId} (h : a.tx ≠ tx) (answers : List Answer) :
    story (answers ++ [a]) tx = story answers tx := by
  rw [story_append, story_singleton, if_neg (fun hc => h hc.1), List.append_nil]

theorem story_concat_same {a : Answer} (h : a.counts = true) (answers : List Answer) :
    story (answers ++ [a]) a.tx = story answers a.tx ++ [(a.call, a.outcome)] := by
  rw [story_append, story_singleton, if_pos ⟨rfl, h⟩]

theorem story_concat_uncounted {a : Answer} (h : a.counts = false) (answers : List Answer)
    (tx : TxId) : story (answers ++ [a]) tx = story answers tx := by
  rw [story_append, story_singleton, if_neg, List.append_nil]
  rw [h]
  simp

theorem commitOrder_concat_not {a : Answer} (h : a.isCommit = false) (answers : List Answer) :
    commitOrder (answers ++ [a]) = commitOrder answers := by
  rw [commitOrder_append, commitOrder_singleton, h]
  simp

theorem isCommit_of_uncounted {a : Answer} (h : a.counts = false) : a.isCommit = false := by
  cases hout : a.outcome with
  | replied => simp [Answer.isCommit, hout]
  | done => simp [Answer.counts, hout] at h
  | refused => simp [Answer.isCommit, hout]

theorem counts_whenEnded (tx : TxId) (c : Call) :
    (⟨tx, c, c.whenEnded⟩ : Answer).counts = true := by
  cases c with
  | request => rfl
  | commit => rfl
  | rollback => rfl

theorem isCommit_request (tx : TxId) (r : Request) (reply : Reply) :
    (⟨tx, .request r, .replied reply⟩ : Answer).isCommit = false := rfl

theorem isCommit_whenEnded (tx : TxId) (c : Call) :
    (⟨tx, c, c.whenEnded⟩ : Answer).isCommit = false := by
  cases c with
  | request => rfl
  | commit => rfl
  | rollback => rfl

/-- What a transaction is told when nobody is in the way counts. -/
theorem counts_alone (tx : TxId) (t : OpenTx) (accounts : Table AccountId Account) (r : Request) :
    (⟨tx, .request r, .replied (t.alone accounts r).1⟩ : Answer).counts = true := by
  cases hreply : (t.alone accounts r).1 with
  | served => rfl
  | refused reason =>
      simp [Answer.counts, OpenTx.alone_refused hreply]
  | waiting => exact absurd hreply (OpenTx.alone_ne_waiting t r)

namespace Store

/-- A run so far is a chain of stories. Those of the transactions that committed lead from the
first accounts to the present ones, and those that are still told are true of these. -/
structure Serial (first : Table AccountId Account) (answers : List Answer) (s : Store) : Prop where
  consistent : s.Consistent
  known : ∀ a ∈ answers, a.tx ≤ s.begun
  running : ∀ tx t, s.live.get? tx = some t → Story.Open s.accounts t.idle (story answers tx)
  chain : Story.Chain first ((commitOrder answers).map (story answers)) s.accounts
  ended : ∀ tx ∈ commitOrder answers, s.live.get? tx = none

/-- Who has committed is not open. -/
theorem Serial.ne_of_live {first : Table AccountId Account} {answers : List Answer} {s : Store}
    (h : s.Serial first answers) {tx other : TxId} {t : OpenTx}
    (hlive : s.live.get? tx = some t) (hother : other ∈ commitOrder answers) : tx ≠ other := by
  rintro rfl
  rw [h.ended tx hother] at hlive
  simp at hlive

theorem known_concat {answers : List Answer} {a : Answer} {last : TxId}
    (h : ∀ b ∈ answers, b.tx ≤ last) (ha : a.tx ≤ last) : ∀ b ∈ answers ++ [a], b.tx ≤ last := by
  intro b hb
  rcases List.mem_append.1 hb with hb | hb
  · exact h b hb
  · rw [List.mem_singleton.1 hb]
    exact ha

section Step

variable {first : Table AccountId Account} {answers : List Answer} {s s' : Store}

/-- What happens to a run without an effect on the accounts: each record is an old one, or as good
as it, or that of a new transaction, and nothing that counts is answered. -/
theorem serial_keep (h : s.Serial first answers) (hcons : s'.Consistent)
    (haccounts : s'.accounts = s.accounts) (hbegun : s.begun ≤ s'.begun)
    (hlive : ∀ tx t', s'.live.get? tx = some t' →
      (∃ t, s.live.get? tx = some t ∧ t'.idle = t.idle) ∨ (s.begun < tx ∧ t'.idle = .fresh)) :
    s'.Serial first answers where
  consistent := hcons
  known a ha := Nat.le_trans (h.known a ha) hbegun
  running tx t' ht' := by
    rw [haccounts]
    rcases hlive tx t' ht' with ⟨t, ht, hidle⟩ | ⟨hnew, hidle⟩
    · rw [hidle]
      exact h.running tx t ht
    · rw [hidle, story_eq_nil]
      · exact Story.open_nil _
      · exact fun a ha heq => absurd (heq ▸ h.known a ha) (Nat.not_le.2 hnew)
  chain := haccounts ▸ h.chain
  ended tx htx := by
    cases ht' : s'.live.get? tx with
    | none => rfl
    | some t' =>
        rcases hlive tx t' ht' with ⟨t, ht, _⟩ | ⟨hnew, _⟩
        · rw [h.ended tx htx] at ht
          simp at ht
        · rcases exists_answer_of_commitOrder htx with ⟨a, ha, rfl⟩
          exact absurd (h.known a ha) (Nat.not_le.2 hnew)

/-- An answer that does not count is as good as none. -/
theorem serial_uncounted (h : s.Serial first answers) {a : Answer} (ha : a.counts = false)
    (hle : a.tx ≤ s.begun) : s.Serial first (answers ++ [a]) where
  consistent := h.consistent
  known := known_concat h.known hle
  running tx t ht := by
    rw [story_concat_uncounted ha]
    exact h.running tx t ht
  chain := by
    rw [commitOrder_concat_not (isCommit_of_uncounted ha)]
    refine Story.chain_map h.chain ?_
    intro tx _ a b hend
    rw [story_concat_uncounted ha]
    exact hend
  ended tx htx := by
    rw [commitOrder_concat_not (isCommit_of_uncounted ha)] at htx
    exact h.ended tx htx

/-- An answer to a transaction that has ended changes the story of one that has committed only
behind its end. -/
theorem serial_late (h : s.Serial first answers) {a : Answer} (hle : a.tx ≤ s.begun)
    (hended : s.live.get? a.tx = none) (hnot : a.isCommit = false)
    (hlate : a.tx ∈ commitOrder answers → a.outcome = a.call.whenEnded) :
    s.Serial first (answers ++ [a]) where
  consistent := h.consistent
  known := known_concat h.known hle
  running tx t ht := by
    rw [story_concat_other]
    · exact h.running tx t ht
    · rintro rfl
      rw [hended] at ht
      simp at ht
  chain := by
    rw [commitOrder_concat_not hnot]
    refine Story.chain_map h.chain ?_
    intro tx htx b c hend
    -- A transaction that has committed may still be asked; its story grows behind its end.
    by_cases heq : a.tx = tx
    · have hout := hlate (heq ▸ htx)
      have hcounts : a.counts = true := by
        have := counts_whenEnded a.tx a.call
        rwa [← hout] at this
      rw [← heq, story_concat_same hcounts, hout, heq]
      exact Story.ended_concat hend a.call
    · rw [story_concat_other heq]
      exact hend
  ended tx htx := by
    rw [commitOrder_concat_not hnot] at htx
    exact h.ended tx htx

variable {tx : TxId} {t : OpenTx}

/-- A transaction is told something about its rows. -/
theorem serial_told (h : s.Serial first answers) (hlive : s.live.get? tx = some t) (r : Request)
    {locks : RowLocks} (hcons : (s.put tx (t.idle.alone s.accounts r).2 locks).Consistent) :
    (s.put tx (t.idle.alone s.accounts r).2 locks).Serial first
      (answers ++ [⟨tx, .request r, .replied (t.idle.alone s.accounts r).1⟩]) where
  consistent := hcons
  known := known_concat h.known (h.consistent.live_le tx t hlive)
  -- The story of `tx` grows by what it is told now; the others are told nothing.
  running other o ho := by
    rw [put_accounts]
    rcases live_put_cases ho with ⟨rfl, rfl⟩ | ⟨hne, hold⟩
    · have hidle : (t.idle.alone s.accounts r).2.idle = (t.idle.alone s.accounts r).2 :=
        OpenTx.idle_of_unblocked (OpenTx.alone_blocked _ _)
      have htold := Story.open_concat (h.running tx t hlive) r
      rw [hidle, story_concat_same (counts_alone tx t.idle s.accounts r)]
      exact htold
    · rw [story_concat_other hne]
      exact h.running other o hold
  chain := by
    rw [commitOrder_concat_not (isCommit_request tx r _)]
    refine Story.chain_map h.chain ?_
    intro other hother b c hend
    rw [story_concat_other (h.ne_of_live hlive hother)]
    exact hend
  ended other hother := by
    rw [commitOrder_concat_not (isCommit_request tx r _)] at hother
    rw [put_live, if_neg (h.ne_of_live hlive hother)]
    exact h.ended other hother

/-- A transaction commits, and the chain grows by its story. -/
theorem serial_applied (h : s.Serial first answers) (hlive : s.live.get? tx = some t)
    (hcons : s'.Consistent) (hbegun : s'.begun = s.begun)
    (hlive' : s'.live = (s.release tx).live)
    (hall : applyAll s.accounts t.pending.entries = .ok s'.accounts) :
    s'.Serial first (answers ++ [⟨tx, .commit, .done⟩]) where
  consistent := hcons
  known := hbegun ▸ known_concat h.known (h.consistent.live_le tx t hlive)
  running other o ho := by
    rw [hlive'] at ho
    rcases live_release_cases hlive ho with ⟨hne, o₀, ho₀, rfl⟩
    rw [story_concat_other hne]
    -- What the other one holds has not been written.
    refine Story.open_congr (h.running other o₀ ho₀) (isSome_applyAll hall) ?_
    intro row hrow
    refine get?_applyAll_other hall ?_
    intro entry hentry hsame
    have hmine := pending_entry_held h.consistent hlive hentry
    exact hne (holder_unique h.consistent hlive ho₀ (hsame ▸ hmine) hrow)
  -- What `tx` was told is true of the accounts to which the chain has led so far.
  chain := by
    have hlast : commitOrder (answers ++ [⟨tx, .commit, .done⟩]) = commitOrder answers ++ [tx] := by
      rw [commitOrder_append, commitOrder_singleton]
      rfl
    have hbefore : Story.Chain first ((commitOrder answers).map
        (story (answers ++ [⟨tx, .commit, .done⟩]))) s.accounts := by
      refine Story.chain_map h.chain ?_
      intro other hother b c hend
      rw [story_concat_other (h.ne_of_live hlive hother)]
      exact hend
    rw [hlast, List.map_append, List.map_singleton]
    refine Story.chain_concat hbefore ?_
    rw [story_concat_same rfl]
    exact ⟨t.idle, story answers tx, [], h.running tx t hlive, hall, rfl⟩
  ended other hother := by
    rw [hlive', live_release hlive]
    by_cases heq : tx = other
    · rw [if_pos heq]
    · rw [commitOrder_append, commitOrder_singleton, List.mem_append] at hother
      rcases hother with hother | hother
      · rw [if_neg heq, h.ended other hother]
        rfl
      · simp only [Answer.isCommit, decide_true, Bool.and_self, ↓reduceIte,
          List.mem_singleton] at hother
        exact absurd hother.symm heq

/-- A record is changed into one as good as it. -/
theorem serial_put (h : s.Serial first answers) (hlive : s.live.get? tx = some t) {t' : OpenTx}
    {locks : RowLocks} (hcons : (s.put tx t' locks).Consistent) (hidle : t'.idle = t.idle) :
    (s.put tx t' locks).Serial first answers := by
  refine serial_keep h hcons rfl (Nat.le_refl _) ?_
  intro other o ho
  rcases live_put_cases ho with ⟨rfl, rfl⟩ | ⟨_, hold⟩
  · exact Or.inl ⟨t, hlive, hidle⟩
  · exact Or.inl ⟨o, hold, rfl⟩

theorem serial_answered (h : s.Serial first answers) (hlive : s.live.get? tx = some t)
    {r : Request} {result : Reply × Store} (hcons : result.2.Consistent)
    (hanswered : Answered s tx t r result) :
    result.2.Serial first (answers ++ [⟨tx, .request r, .replied result.1⟩]) := by
  cases hanswered with
  | alone => exact serial_told h hlive r hcons
  | cycle =>
      exact serial_uncounted (serial_put h hlive hcons rfl) rfl (h.consistent.live_le tx t hlive)
  | waiting =>
      exact serial_uncounted (serial_put h hlive hcons rfl) rfl (h.consistent.live_le tx t hlive)

/-- A transaction ends without an effect. -/
theorem serial_ended (h : s.Serial first answers) (hlive : s.live.get? tx = some t)
    (hcons : s'.Consistent) (haccounts : s'.accounts = s.accounts) (hbegun : s'.begun = s.begun)
    (hlive' : s'.live = (s.release tx).live) : s'.Serial first answers := by
  refine serial_keep h hcons haccounts (Nat.le_of_eq hbegun.symm) ?_
  intro other o ho
  rw [hlive'] at ho
  rcases live_release_cases hlive ho with ⟨_, o₀, ho₀, rfl⟩
  exact Or.inl ⟨o₀, ho₀, rfl⟩

/-- The same, and it is told so. -/
theorem serial_ended_late (h : s.Serial first answers) (hlive : s.live.get? tx = some t)
    (hcons : s'.Consistent) (haccounts : s'.accounts = s.accounts) (hbegun : s'.begun = s.begun)
    (hlive' : s'.live = (s.release tx).live) {c : Call} {outcome : Outcome}
    (hnot : (⟨tx, c, outcome⟩ : Answer).isCommit = false) :
    s'.Serial first (answers ++ [⟨tx, c, outcome⟩]) := by
  refine serial_late (serial_ended h hlive hcons haccounts hbegun hlive') ?_ ?_ hnot ?_
  · rw [hbegun]
    exact h.consistent.live_le tx t hlive
  · rw [hlive', live_release hlive, if_pos rfl]
  · exact fun hmem => absurd rfl (h.ne_of_live hlive hmem)

theorem serial_committed (h : s.Serial first answers) (hlive : s.live.get? tx = some t)
    {result : Except Refusal Unit × Store} (hcons : result.2.Consistent)
    (hend : Committed s tx t result) :
    result.2.Serial first (answers ++ [⟨tx, .commit, .ofResult result.1⟩]) := by
  cases hend with
  | conflict =>
      exact serial_ended_late h hlive hcons (release_accounts s tx) (release_begun s tx) rfl rfl
  | rejected =>
      exact serial_ended_late h hlive hcons (release_accounts s tx) (release_begun s tx) rfl rfl
  | applied _ hall =>
      exact serial_applied h hlive hcons (release_begun s tx) rfl hall

/-- No event breaks the chain, unless it puts an account in the place of another. -/
theorem serial_step (h : s.Serial first answers) {e : Event}
    (hins : ∀ id balance, e ≠ .insert id balance) :
    (s.step e).2.Serial first (answers ++ (s.step e).1.toList) := by
  have hcons := consistent_step h.consistent e
  have hstep := stepped s e
  generalize s.step e = result at hstep hcons
  cases hstep with
  | nothing =>
      rw [Option.toList_none, List.append_nil]
      exact h
  | started =>
      rw [Option.toList_none, List.append_nil]
      refine serial_keep h hcons rfl (Nat.le_succ _) ?_
      intro tx t ht
      rcases live_start_cases ht with ⟨rfl, rfl⟩ | hold
      · exact Or.inr ⟨Nat.lt_succ_self _, rfl⟩
      · exact Or.inl ⟨t, hold, rfl⟩
  | @closed tx hended hle c =>
      exact serial_late h hle hended (isCommit_whenEnded tx c) fun _ => rfl
  | served hlive hidle hheld =>
      exact serial_answered h hlive hcons (answered_of_held hidle hheld)
  | asked hlive _ hnew hlook =>
      exact serial_answered h hlive hcons (answered_of_examined hnew hlook)
  | polled hlive hwoken hlook =>
      exact serial_answered h hlive hcons
        (answered_of_examined (h.consistent.blocked_new hlive hwoken) hlook)
  | abandoned hlive =>
      rw [Option.toList_none, List.append_nil]
      exact serial_put h hlive hcons rfl
  | @dropped tx _ hlive =>
      rw [Option.toList_none, List.append_nil]
      exact serial_ended h hlive hcons (release_accounts s tx) (release_begun s tx) rfl
  | @rolledBack tx _ hlive =>
      exact serial_ended_late h hlive hcons (release_accounts s tx) (release_begun s tx) rfl rfl
  | committed hlive _ hend => exact serial_committed h hlive hcons hend
  | inserted id balance => exact absurd rfl (hins id balance)
  | injected =>
      rw [Option.toList_none, List.append_nil]
      exact serial_keep h hcons rfl (Nat.le_refl _) fun _ t ht => Or.inl ⟨t, ht, rfl⟩

end Step

-- Induction on the run from its start, so the answers given so far are part of the statement.
/-- Every run is a chain of stories, as long as no account is put in. -/
theorem serial_after {first : Table AccountId Account} {answers : List Answer} {s : Store}
    (h : s.Serial first answers) (events : List Event)
    (hins : ∀ id balance, Event.insert id balance ∉ events) :
    (s.after events).Serial first (answers ++ s.answers events) := by
  induction events generalizing answers s with
  | nil =>
      rw [Store.answers, List.append_nil]
      exact h
  | cons e rest ih =>
      have hfirst := serial_step h fun id balance heq => hins id balance (heq ▸ List.mem_cons_self)
      have := ih hfirst fun id balance hmem => hins id balance (List.mem_cons_of_mem _ hmem)
      rwa [List.append_assoc] at this

theorem serial_ofAccounts (accounts : Table AccountId Account) :
    (ofAccounts accounts).Serial accounts [] where
  consistent := consistent_ofAccounts accounts
  known := by simp
  running := by simp [ofAccounts, empty]
  chain := rfl
  ended := by simp [commitOrder]

end Store

end RowLedger
