import Mathlib.Data.List.Induction
import RowLedger.Proofs.Aftermath

/-!
# What commits write

Accounts at rest. As long as accounts are put in with money in them or with
nothing, no account is ever below zero, whatever deltas the transactions have
come by: a commit looks at every sum before it writes any. The version of an
account is the number of commits that have written it since it was put in, and
a commit writes either every row it has a delta for or none.

A commit looks at all deltas first and adds them afterwards, without another
look. Here both passes are written down as they are (`Store.objection?`,
`Store.addAll?`). No row has two deltas, so a delta meets in the second pass the
account that was looked at in the first, and the second pass cannot fail. This
is why deltas may as well be checked and applied one by one
(`applyAll_eq_passes`).

## Main definitions

* `Store.objection?`: The first pass, which changes nothing.
* `Store.addAll?`: The second pass, which checks nothing.
* `Store.writes`, `Store.writesTo`: The commits of a run that write a row.
* `Store.Solvent`: No account is below zero.
* `Store.Atomic`: What the next event can do to the accounts.

## Theorems

* `applyAll_eq_passes`: Two passes come to the same as one.
* `solvent_step`, `solvent_after`: No account falls below zero.
* `atomic_of_consistent`: Commits write everything or nothing.
* `versioned_step`: A version counts the commits that wrote.
* `books_kept`: All of that, over whole runs.
-/

namespace RowLedger

namespace Store

/-- The first objection to deltas. All are looked at before any of them is added. -/
def objection? (accounts : Table AccountId Account) :
    List (AccountId × Decimal) → Option Refusal
  | [] => none
  | (row, delta) :: rest =>
    match accounts.get? row with
    | none => objection? accounts rest
    | some account =>
      match account.balance.add? delta with
      | none => some (.balanceOverflow row)
      | some next =>
        if next.isNegative then some (.negativeBalance row next) else objection? accounts rest

/-- The accounts with all deltas added. A sum out of range is not looked for: there are no accounts
then. -/
def addAll? (accounts : Table AccountId Account) :
    List (AccountId × Decimal) → Option (Table AccountId Account)
  | [] => some accounts
  | (row, delta) :: rest =>
    match accounts.get? row with
    | none => addAll? accounts rest
    | some account =>
      match account.balance.add? delta with
      | none => none
      | some next =>
        addAll? (accounts.insert row
          { account with balance := next, version := account.version + 1 }) rest

/-- An event is the commit of a transaction with a delta for the row, and it succeeds. -/
def writes (s : Store) (row : AccountId) : Event → Bool
  | .call tx .commit =>
    decide ((s.step (.call tx .commit)).1 = some ⟨tx, .commit, .done⟩) &&
      (s.live.get? tx).any fun t => t.pending.contains row
  | _ => false

/-- The number of commits of a run that write a row. -/
def writesTo (s : Store) (row : AccountId) : List Event → Nat
  | [] => 0
  | e :: rest => (s.writes row e).toNat + (s.step e).2.writesTo row rest

/-- No account is below zero. -/
def Solvent (s : Store) : Prop :=
  ∀ row account, s.accounts.get? row = some account → account.balance.isNegative = false

/-- What the next event can do to the accounts. -/
structure Atomic (s : Store) : Prop where
  /-- Only a commit and an insertion change accounts. -/
  spared : ∀ e, (∀ tx, e ≠ .call tx .commit) → (∀ id balance, e ≠ .insert id balance) →
    (s.step e).2.accounts = s.accounts
  /-- A commit that is not answered with success leaves all accounts as they were. -/
  refused : ∀ tx, (s.step (.call tx .commit)).1 ≠ some ⟨tx, .commit, .done⟩ →
    (s.step (.call tx .commit)).2.accounts = s.accounts
  /-- One that is adds every delta of its transaction, and touches no other account. -/
  done : ∀ tx, (s.step (.call tx .commit)).1 = some ⟨tx, .commit, .done⟩ →
    ∃ t, s.live.get? tx = some t ∧
      Posts t.pending s.accounts (s.step (.call tx .commit)).2.accounts
  /-- What is committed is what the two passes make of the accounts; with no objection the second
  pass stays in range. -/
  passes : ∀ tx t, s.live.get? tx = some t → s.conflictsDue = 0 →
    match objection? s.accounts t.pending.entries with
    | some reason => s.commit tx = (.error reason, s.release tx)
    | none => ∃ accounts, addAll? s.accounts t.pending.entries = some accounts ∧
        s.commit tx = (.ok (), { s.release tx with accounts })

section Passes

variable {accounts accounts' : Table AccountId Account}

/-- To look at other rows it does not matter what is written to this one. -/
theorem objection?_insert {row : AccountId} {account : Account}
    {l : List (AccountId × Decimal)} (hrow : ∀ e ∈ l, e.1 ≠ row) :
    objection? (accounts.insert row account) l = objection? accounts l := by
  induction l with
  | nil => rfl
  | cons e rest ih =>
      have hne : ¬ row = e.1 := fun heq => hrow e List.mem_cons_self heq.symm
      rw [objection?, objection?, Table.get?_insert, if_neg hne,
        ih fun e' he' => hrow e' (List.mem_cons_of_mem _ he')]

-- The induction goes along the entries. The accounts of the one pass have changed by then, but
-- only at rows that are behind, so the first pass finds the same at the rest.
/-- To look at all deltas first and to add them afterwards comes to the same as to do both at each
of them; in particular the second pass does not fail. -/
theorem applyAll_eq_passes (accounts : Table AccountId Account) {l : List (AccountId × Decimal)}
    (hasc : l.Pairwise fun a b => a.1 < b.1) :
    (∃ reason, objection? accounts l = some reason ∧
        applyAll accounts l = .error reason) ∨
      (objection? accounts l = none ∧ ∃ accounts',
        addAll? accounts l = some accounts' ∧ applyAll accounts l = .ok accounts') := by
  induction l generalizing accounts with
  | nil => exact Or.inr ⟨rfl, accounts, rfl, rfl⟩
  | cons e rest ih =>
      rcases List.pairwise_cons.1 hasc with ⟨hfirst, hasc'⟩
      have hlater : ∀ e' ∈ rest, e'.1 ≠ e.1 := fun e' he' => (Int.ne_of_lt (hfirst e' he')).symm
      rw [objection?, addAll?, applyAll]
      cases haccount : accounts.get? e.1 with
      | none => exact ih accounts hasc'
      | some account =>
          simp only [applied]
          cases hnext : account.balance.add? e.2 with
          | none => exact Or.inl ⟨_, rfl, rfl⟩
          | some next =>
              cases hnegative : next.isNegative with
              | true => exact Or.inl ⟨.negativeBalance e.1 next, by simp [hnegative]⟩
              | false =>
                  have := ih (accounts.insert e.1
                    { account with balance := next, version := account.version + 1 }) hasc'
                  rw [objection?_insert hlater] at this
                  simpa only [hnegative, Bool.false_eq_true, ↓reduceIte] using this

end Passes

section Books

variable {s : Store} {row : AccountId}

theorem writes_iff {e : Event} : s.writes row e = true ↔
    ∃ tx t, e = .call tx .commit ∧ (s.step e).1 = some ⟨tx, .commit, .done⟩ ∧
      s.live.get? tx = some t ∧ (t.pending.get? row).isSome = true := by
  constructor
  · intro h
    unfold writes at h
    split at h
    · rename_i tx
      rw [Bool.and_eq_true, decide_eq_true_eq, Option.any_eq_true] at h
      rcases h with ⟨hdone, t, hlive, hpending⟩
      exact ⟨tx, t, rfl, hdone, hlive, hpending⟩
    · simp at h
  · rintro ⟨tx, t, rfl, hdone, hlive, hpending⟩
    rw [writes, Bool.and_eq_true, decide_eq_true_eq, Option.any_eq_true]
    exact ⟨hdone, t, hlive, hpending⟩

theorem writesTo_append (s : Store) (row : AccountId) (first second : List Event) :
    s.writesTo row (first ++ second) =
      s.writesTo row first + (s.after first).writesTo row second := by
  induction first generalizing s with
  | nil => rw [List.nil_append, writesTo, Nat.zero_add, after_nil]
  | cons e rest ih => rw [List.cons_append, writesTo, writesTo, ih, after_cons, Nat.add_assoc]

/-- No more commits write a row than there are commits. -/
theorem writesTo_le (s : Store) (row : AccountId) (events : List Event) :
    s.writesTo row events ≤ (commitOrder (s.answers events)).length := by
  induction events generalizing s with
  | nil => exact Nat.zero_le _
  | cons e rest ih =>
      rw [writesTo, answers, commitOrder_append, List.length_append]
      refine Nat.add_le_add ?_ (ih _)
      cases hwrites : s.writes row e with
      | false => exact Nat.zero_le _
      | true =>
          rcases writes_iff.1 hwrites with ⟨tx, _, _, hdone, _, _⟩
          rw [hdone]
          exact Nat.le_refl _

theorem atomic_of_consistent (h : s.Consistent) : s.Atomic where
  spared e hcommit hins := by
    rcases accounts_step (s := s) hins with heq | ⟨tx, _, rfl, _⟩
    · exact heq
    · exact absurd rfl (hcommit tx)
  refused tx hanswer := by
    rcases accounts_step (s := s) (e := .call tx .commit) (by simp) with
      heq | ⟨tx', _, heq, _, hdone, _⟩
    · exact heq
    · cases heq
      exact absurd hdone hanswer
  done tx hdone := by
    rcases committed_of_answer hdone with ⟨_, t, hlive, hall⟩
    refine ⟨t, hlive, posts_of_applyAll hall ?_⟩
    intro row hpending
    exact held_exists_of_mem h hlive (h.pending_held tx t row hlive hpending)
  passes tx t hlive hdue := by
    rcases applyAll_eq_passes s.accounts t.pending.ascending with
      ⟨reason, hobjection, hall⟩ | ⟨hobjection, accounts, hadd, hall⟩
    · rw [hobjection]
      simp only
      rw [commit, hlive, hdue]
      simp only [hall]
    · rw [hobjection]
      refine ⟨accounts, hadd, ?_⟩
      rw [commit, hlive, hdue]
      simp only [hall]

/-- An event that does not write a row and does not put it in leaves its account alone. -/
theorem account_step_unwritten (h : s.Consistent) {e : Event} (hwrites : s.writes row e = false)
    (hins : ∀ balance, e ≠ .insert row balance) :
    (s.step e).2.accounts.get? row = s.accounts.get? row := by
  by_cases hinsert : ∃ id balance, e = .insert id balance
  · rcases hinsert with ⟨id, balance, rfl⟩
    have hne : id ≠ row := fun heq => hins balance (heq ▸ rfl)
    rw [step, insert, Table.get?_insert, if_neg hne]
  · rcases accounts_step (s := s) (e := e) (fun id balance heq => hinsert ⟨id, balance, heq⟩) with
      heq | ⟨tx, t, he, hlive, hdone, hall⟩
    · rw [heq]
    · have hposts := posts_of_applyAll hall fun row hpending =>
        held_exists_of_mem h hlive (h.pending_held tx t row hlive hpending)
      have hpending : t.pending.get? row = none := by
        rw [← Option.not_isSome_iff_eq_none]
        intro hsome
        rw [writes_iff.2 ⟨tx, t, he, hdone, hlive, hsome⟩] at hwrites
        simp at hwrites
      have := hposts row
      rwa [hpending] at this

/-- An event that writes a row has added to its account, and the sum is not below zero. -/
theorem account_step_written {e : Event} (hwrites : s.writes row e = true) {account : Account}
    (haccount : s.accounts.get? row = some account) :
    ∃ next, next.isNegative = false ∧ (s.step e).2.accounts.get? row =
      some { account with balance := next, version := account.version + 1 } := by
  rcases writes_iff.1 hwrites with ⟨tx, t, rfl, hdone, hlive, hpending⟩
  rcases committed_of_answer hdone with ⟨_, t', hlive', hall⟩
  rw [hlive, Option.some.injEq] at hlive'
  rcases Option.isSome_iff_exists.1 hpending with ⟨delta, hdelta⟩
  rcases get?_applyAll t'.pending.ascending hall
    (hlive' ▸ (Table.mem_entries_iff _ _ _).2 hdelta) haccount with ⟨new, hnew, hafter⟩
  rw [applied] at hnew
  cases hnext : account.balance.add? delta with
  | none => simp [hnext] at hnew
  | some next =>
      cases hnegative : next.isNegative with
      | true => simp [hnext, hnegative] at hnew
      | false =>
          simp only [hnext, hnegative, Bool.false_eq_true, ↓reduceIte, Except.ok.injEq] at hnew
          exact ⟨next, hnegative, hnew ▸ hafter⟩

/-- A row that is written has an account. -/
theorem exists_account_of_writes (h : s.Consistent) {e : Event}
    (hwrites : s.writes row e = true) : ∃ account, s.accounts.get? row = some account := by
  rcases writes_iff.1 hwrites with ⟨tx, t, _, _, hlive, hpending⟩
  exact Option.isSome_iff_exists.1
    (held_exists_of_mem h hlive (h.pending_held tx t row hlive hpending))

/-- An account that is not put in by an event was there before. -/
theorem account_step_cases (h : s.Consistent) {e : Event}
    (hins : ∀ balance, e ≠ .insert row balance) {new : Account}
    (hnew : (s.step e).2.accounts.get? row = some new) :
    ∃ old, s.accounts.get? row = some old ∧
      ((s.writes row e = false ∧ new = old) ∨
        (s.writes row e = true ∧ new.balance.isNegative = false ∧
          new.version = old.version + 1)) := by
  cases hwrites : s.writes row e with
  | false =>
      rw [account_step_unwritten h hwrites hins] at hnew
      exact ⟨new, hnew, Or.inl ⟨rfl, rfl⟩⟩
  | true =>
      rcases exists_account_of_writes h hwrites with ⟨old, hold⟩
      rcases account_step_written hwrites hold with ⟨next, hnegative, hnext⟩
      rw [hnew, Option.some.injEq] at hnext
      rw [hnext]
      exact ⟨old, hold, Or.inr ⟨rfl, hnegative, rfl⟩⟩

theorem solvent_step (h : s.Consistent) (hsolvent : s.Solvent) {e : Event}
    (hfunded : ∀ id balance, e = .insert id balance → balance.isNegative = false) :
    (s.step e).2.Solvent := by
  intro row new hnew
  by_cases hins : ∃ balance, e = .insert row balance
  · rcases hins with ⟨balance, rfl⟩
    rw [step, insert, Table.get?_insert, if_pos rfl, Option.some.injEq] at hnew
    rw [← hnew]
    exact hfunded row balance rfl
  · rcases account_step_cases h (fun balance heq => hins ⟨balance, heq⟩) hnew with
      ⟨old, hold, ⟨_, rfl⟩ | ⟨_, hnegative, _⟩⟩
    · exact hsolvent row new hold
    · exact hnegative

theorem solvent_after (h : s.Consistent) (hsolvent : s.Solvent) (events : List Event)
    (hfunded : ∀ id balance, .insert id balance ∈ events → balance.isNegative = false) :
    (s.after events).Solvent := by
  have hboth : (s.after events).Consistent ∧ (s.after events).Solvent := by
    refine after_induction (P := fun s => s.Consistent ∧ s.Solvent) events s ⟨h, hsolvent⟩ ?_
    rintro s e he ⟨hcons, hsolvent⟩
    refine ⟨consistent_step hcons e, solvent_step hcons hsolvent ?_⟩
    rintro id balance rfl
    exact hfunded id balance he
  exact hboth.2

/-- The version of an account is the number of commits that wrote it since it was last put in. -/
def Versioned (events : List Event) : Prop :=
  ∀ row account, (empty.after events).accounts.get? row = some account →
    ∃ before balance later, events = before ++ .insert row balance :: later ∧
      (∀ balance', Event.insert row balance' ∉ later) ∧
      account.version = (empty.after (before ++ [.insert row balance])).writesTo row later

theorem versioned_step {events : List Event} (h : Versioned events) (e : Event) :
    Versioned (events ++ [e]) := by
  intro row new hnew
  rw [after_append, after_cons, after_nil] at hnew
  by_cases hins : ∃ balance, e = .insert row balance
  · rcases hins with ⟨balance, rfl⟩
    rw [step, insert, Table.get?_insert, if_pos rfl, Option.some.injEq] at hnew
    refine ⟨events, balance, [], rfl, by simp, ?_⟩
    rw [← hnew]
    rfl
  · have hins' : ∀ balance, e ≠ .insert row balance := fun balance heq => hins ⟨balance, heq⟩
    rcases account_step_cases (consistent_after consistent_empty events) hins' hnew with
      ⟨old, hold, hcase⟩
    rcases h row old hold with ⟨before, balance, later, rfl, hlast, hversion⟩
    refine ⟨before, balance, later ++ [e], by simp, ?_, ?_⟩
    · intro balance' hmem
      rcases List.mem_append.1 hmem with hmem | hmem
      · exact hlast balance' hmem
      · exact hins' balance' (List.mem_singleton.1 hmem).symm
    · -- What the new event adds to the count it adds to the version.
      have hstate : (empty.after (before ++ [.insert row balance])).after later =
          empty.after (before ++ .insert row balance :: later) := by
        rw [← after_append, List.append_assoc]
        rfl
      rw [writesTo_append, hstate, writesTo, writesTo, Nat.add_zero]
      rcases hcase with ⟨hwrites, rfl⟩ | ⟨hwrites, _, hnext⟩
      · rw [hwrites, hversion]
        simp
      · rw [hwrites, hnext, hversion]
        simp

theorem versioned_run (events : List Event) : Versioned events := by
  induction events using List.reverseRecOn with
  | nil =>
      intro row account haccount
      simp [empty] at haccount
  | append_singleton events e ih => exact versioned_step ih e

end Books

/-- Whatever happens to a store whose accounts are put in with no debts: no account is below zero,
the version of an account is the number of commits that wrote it since it was last put in, and the
next event changes accounts only by an insertion or by a commit that writes all it has. -/
theorem books_kept (events : List Event)
    (hfunded : ∀ id balance, .insert id balance ∈ events → balance.isNegative = false) :
    (empty.after events).Solvent ∧ (empty.after events).Atomic ∧
      ∀ row account, (empty.after events).accounts.get? row = some account →
        account.version ≤ (commitOrder (empty.answers events)).length ∧
        ∃ before balance later, events = before ++ .insert row balance :: later ∧
          (∀ balance', Event.insert row balance' ∉ later) ∧
          account.version = (empty.after (before ++ [.insert row balance])).writesTo row later := by
  have hsolvent : empty.Solvent := by
    intro row account haccount
    simp [empty] at haccount
  refine ⟨solvent_after consistent_empty hsolvent events hfunded,
    atomic_of_consistent (consistent_after consistent_empty events), ?_⟩
  intro row account haccount
  rcases versioned_run events row account haccount with
    ⟨before, balance, later, rfl, hlast, hversion⟩
  refine ⟨?_, before, balance, later, rfl, hlast, hversion⟩
  have hle := writesTo_le (empty.after (before ++ [.insert row balance])) row later
  have hall : (commitOrder ((empty.after (before ++ [.insert row balance])).answers later)).length ≤
      (commitOrder (empty.answers (before ++ .insert row balance :: later))).length := by
    rw [show before ++ .insert row balance :: later = before ++ [.insert row balance] ++ later from
      List.append_cons .., answers_append, commitOrder_append, List.length_append]
    exact Nat.le_add_left _ _
  rw [hversion]
  exact_mod_cast Nat.le_trans hle hall

/-- Two commits fail, one because a conflict is due and one because the first account would owe
money. The third one writes both accounts. Then the second account is put in anew and is written
once more. -/
def contested : List Event :=
  [.insert 1 (.ofUInt64 10), .insert 2 (.ofUInt64 5), .start, .start,
    .call 1 (.request (.update 1 (.ofInt64 (-3)))), .call 1 (.request (.update 2 (.ofInt64 3))),
    .inject 1, .call 1 .commit, .call 2 (.request (.update 1 (.ofInt64 (-20)))), .call 2 .commit,
    .start, .call 3 (.request (.update 1 (.ofInt64 (-4)))),
    .call 3 (.request (.update 2 (.ofInt64 4))), .call 3 .commit, .insert 2 .zero, .start,
    .call 4 (.request (.update 2 (.ofInt64 1))), .call 4 .commit]

theorem books_kept_contested :
    (∀ id balance, .insert id balance ∈ contested → balance.isNegative = false) ∧
      commitOrder (empty.answers contested) = [3, 4] ∧
      (empty.after contested).accounts.values =
        [⟨1, .ofUInt64 6, 1⟩, ⟨2, .ofUInt64 1, 1⟩] ∧
      (empty.after contested).Solvent ∧ (empty.after contested).Atomic ∧
      ∃ before balance later, contested = before ++ .insert 2 balance :: later ∧
        (∀ balance', Event.insert 2 balance' ∉ later) ∧
        1 = ((empty.after (before ++ [.insert 2 balance])).writesTo 2 later : Int) := by
  have hfunded : ∀ id balance, .insert id balance ∈ contested → balance.isNegative = false := by
    intro id balance hmem
    simp only [contested, List.mem_cons, Event.insert.injEq, reduceCtorEq, List.not_mem_nil,
      false_or, or_false] at hmem
    rcases hmem with ⟨_, rfl⟩ | ⟨_, rfl⟩ | ⟨_, rfl⟩
    · rfl
    · rfl
    · rfl
  rcases books_kept contested hfunded with ⟨hsolvent, hatomic, hversions⟩
  have haccount : (empty.after contested).accounts.get? 2 = some ⟨2, .ofUInt64 1, 1⟩ := by
    decide +kernel
  exact ⟨hfunded, by decide +kernel, by decide +kernel, hsolvent, hatomic,
    (hversions 2 _ haccount).2⟩

end Store

end RowLedger
