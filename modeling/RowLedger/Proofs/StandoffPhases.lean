import RowLedger.Proofs.Standoff

/-!
# How two sides stand to each other

Two sides that each hold their first row come to their ends in one way, up to
which of them is the first to ask for its second row. That one waits. The other
one then closes the cycle, is refused, and rolls back, which wakes the first. It
finds both rows its own, writes, and commits. Nothing that anybody does in
between changes the accounts, so what the commit comes to is decided by the
accounts that the two have started from.

These phases are kept by every turn of the two sides and of the others. Each
turn of a side brings it nearer to its end, unless it waits for the other one,
so that the two can always be brought to their ends.

## Main definitions

* `returns`: What was returned under a label.
* `Standoff.Concludes`: A side is about to commit or to roll back.
* `Standoff.Phase`: How the sides stand to each other.
* `Standoff.Stage`: The phase, what has been returned, and what has been
  concluded.

## Theorems

* `mine_went`, `theirs_went`, `event_went`: What a turn makes of a phase.
* `stage_step`, `stage_after`: Turns keep to the phases.
* `returned_of_exhausted`: When nobody can go on, both have returned.
* `exists_exhausted`: They can be brought there.
-/

namespace RowLedger

/-- What a side has returned: its transaction, if it had one, and its outcome. -/
def Report.returned? {ι : Type} [DecidableEq ι] (label : ι) :
    Report ι → Option (Option TxId × Except Failure Unit)
  | .returned label' tx outcome => if label' = label then some (tx, outcome) else none
  | .answered _ | .crashed .. => none

/-- All that was returned under a label. -/
def returns {ι : Type} [DecidableEq ι] (label : ι) (reports : List (Report ι)) :
    List (Option TxId × Except Failure Unit) :=
  reports.filterMap (Report.returned? label)

theorem mem_returns_iff {ι : Type} [DecidableEq ι] {label : ι} {reports : List (Report ι)}
    {tx : Option TxId} {outcome : Except Failure Unit} :
    (tx, outcome) ∈ returns label reports ↔ .returned label tx outcome ∈ reports := by
  rw [returns, List.mem_filterMap]
  constructor
  · rintro ⟨report, hreport, htold⟩
    cases report with
    | returned label' tx' outcome' =>
        simp only [Report.returned?, Option.ite_none_right_eq_some, Option.some.injEq,
          Prod.mk.injEq] at htold
        rcases htold with ⟨rfl, rfl, rfl⟩
        exact hreport
    | _ => simp [Report.returned?] at htold
  · exact fun hreport => ⟨_, hreport, by simp [Report.returned?]⟩

theorem returns_append {ι : Type} [DecidableEq ι] (label : ι) (first second : List (Report ι)) :
    returns label (first ++ second) = returns label first ++ returns label second :=
  List.filterMap_append

theorem returns_answered {ι : Type} [DecidableEq ι] (label : ι) (answers : List Answer) :
    returns label (answers.map .answered) = [] := by
  rw [returns, List.filterMap_eq_nil_iff]
  intro report hreport
  rcases List.mem_map.1 hreport with ⟨a, _, rfl⟩
  rfl

namespace Standoff

/-- How sides have concluded, and in which transactions. -/
abbrev Conclusions : Type := Direction → TxId → Except Failure Unit → Prop

variable {c : Standoff} {s₀ : Store} {d : Direction} {t : Traffic Direction} {tx p q : TxId}
  {x x' y y' : Place} {concluded concluded' : Conclusions}
  {returned : Direction → List (Option TxId × Except Failure Unit)}

/-- Nothing has been committed yet, and no conflict that was due has been met. -/
structure Untouched (s₀ : Store) (t : Traffic Direction) : Prop where
  accounts : t.store.accounts = s₀.accounts
  due : t.store.conflictsDue = s₀.conflictsDue

/-- A side is about to end its transaction by an outcome. It has both rows if it commits. -/
structure Concludes (c : Standoff) (d : Direction) (t : Traffic Direction) (tx : TxId)
    (outcome : Except Failure Unit) : Prop where
  task : t.tasks.get? tx = some ⟨d, .conclude outcome⟩
  rows : outcome = .ok () → ∀ e, t.store.locks.holders.get? (c.row e) = some tx

/-- The failure of a side whose second row is held by the other one. -/
def fault (c : Standoff) (d : Direction) (p q : TxId) : Failure :=
  .ofStoreFault (Refusal.deadlock p (c.row d.other) q).toFault

namespace Place

/-- A side has both rows and its transaction is open. -/
inductive HoldsBoth : Place → Prop where
  | writing : HoldsBoth .writing
  | writingLast : HoldsBoth .writingLast
  | committing : HoldsBoth .committing

/-- What a side has returned. -/
def told (tx : TxId) : Place → List (Option TxId × Except Failure Unit)
  | .gone outcome => [(some tx, outcome)]
  | _ => []

/-- How much a side has left to do. -/
def rank : Place → Nat
  | .opening => 10
  | .pausing => 9
  | .asking => 8
  | .waiting _ => 7
  | .writing => 6
  | .writingLast => 5
  | .committing => 4
  | .retreating _ => 2
  | .leaving _ => 1
  | .gone _ => 0

/-- Who has been woken is where it was. -/
theorem woken_eq {x x' : Place} (h : x' = x ∨ x' = x.wake) (tx : TxId) :
    x'.told tx = x.told tx ∧ x'.rank = x.rank := by
  rcases h with rfl | rfl
  · exact ⟨rfl, rfl⟩
  · cases x <;> exact ⟨rfl, rfl⟩

/-- Who waits goes on waiting when it has been woken. -/
theorem waiting_of_woken {woken : Bool} {x : Place}
    (h : x = .waiting woken ∨ x = wake (.waiting woken)) : ∃ woken', x = .waiting woken' := by
  rcases h with rfl | rfl
  · exact ⟨woken, rfl⟩
  · exact ⟨true, rfl⟩

end Place

/-- How two sides stand to each other once both have had their first rows. The one that was the
first to wait comes first. -/
inductive Phase (c : Standoff) (s₀ : Store) (t : Traffic Direction)
    (concluded : Conclusions) (d : Direction) (p q : TxId) : Place → Place → Prop where
  | facing {x y : Place} (hsame : Untouched s₀ t) (hx : x.Holding) (hy : y.Holding) :
      Phase c s₀ t concluded d p q x y
  | blocked {y : Place} (hsame : Untouched s₀ t) (woken : Bool) (hy : y.Holding) :
      Phase c s₀ t concluded d p q (.waiting woken) y
  | struck (hsame : Untouched s₀ t) (woken : Bool) :
      Phase c s₀ t concluded d p q (.waiting woken) (.retreating (c.fault d.other q p))
  | relieved {y : Place} (hsame : Untouched s₀ t)
      (hback : concluded d.other q (.error (c.fault d.other q p)))
      (hy : y.Over (.error (c.fault d.other q p))) :
      Phase c s₀ t concluded d p q (.waiting true) y
  | carriesOn {x y : Place} (hsame : Untouched s₀ t)
      (hback : concluded d.other q (.error (c.fault d.other q p))) (hx : x.HoldsBoth)
      (hy : y.Over (.error (c.fault d.other q p))) : Phase c s₀ t concluded d p q x y
  | settled {x y : Place} (haccounts : t.store.accounts = s₀.settledAccounts (c.deltas d).entries)
      (hback : concluded d.other q (.error (c.fault d.other q p)))
      (hconcluded : concluded d p (.ok ())) (hx : x.Over (s₀.outcome (c.deltas d).entries))
      (hy : y.Over (.error (c.fault d.other q p))) : Phase c s₀ t concluded d p q x y

section Wake

theorem Place.Holding.wake_eq (h : x.Holding) : x.wake = x := by
  cases h <;> rfl

theorem Place.HoldsBoth.wake_eq (h : x.HoldsBoth) : x.wake = x := by
  cases h <;> rfl

theorem Place.Over.wake_eq {outcome : Except Failure Unit} (h : x.Over outcome) : x.wake = x := by
  cases h <;> rfl

variable {t' : Traffic Direction}

theorem Untouched.keep (h : Untouched s₀ t) (haccounts : t'.store.accounts = t.store.accounts)
    (hdue : t'.store.conflictsDue = t.store.conflictsDue) : Untouched s₀ t' :=
  ⟨haccounts.trans h.accounts, hdue.trans h.due⟩

/-- To be woken changes nothing about how the sides stand to each other. -/
theorem Phase.wake (h : Phase c s₀ t concluded d p q x y)
    (haccounts : t'.store.accounts = t.store.accounts)
    (hdue : t'.store.conflictsDue = t.store.conflictsDue)
    (hmore : ∀ e tx outcome, concluded e tx outcome → concluded' e tx outcome)
    (hx : x' = x ∨ x' = x.wake) (hy : y' = y ∨ y' = y.wake) :
    Phase c s₀ t' concluded' d p q x' y' := by
  have hstays : ∀ {z z' : Place}, z.wake = z → (z' = z ∨ z' = z.wake) → z' = z := by
    intro z z' hsame hz
    rcases hz with hz | hz
    · exact hz
    · exact hz.trans hsame
  cases h with
  | facing hsame hholds hholds' =>
      rw [hstays hholds.wake_eq hx, hstays hholds'.wake_eq hy]
      exact .facing (hsame.keep haccounts hdue) hholds hholds'
  | blocked hsame woken hholds =>
      rcases Place.waiting_of_woken hx with ⟨woken', rfl⟩
      rw [hstays hholds.wake_eq hy]
      exact .blocked (hsame.keep haccounts hdue) woken' hholds
  | struck hsame woken =>
      rcases Place.waiting_of_woken hx with ⟨woken', rfl⟩
      rw [hstays rfl hy]
      exact .struck (hsame.keep haccounts hdue) woken'
  | relieved hsame hback hover =>
      rw [hstays rfl hx, hstays hover.wake_eq hy]
      exact .relieved (hsame.keep haccounts hdue) (hmore _ _ _ hback) hover
  | carriesOn hsame hback hboth hover =>
      rw [hstays hboth.wake_eq hx, hstays hover.wake_eq hy]
      exact .carriesOn (hsame.keep haccounts hdue) (hmore _ _ _ hback) hboth hover
  | settled hfinal hback hconcluded hend hover =>
      rw [hstays hend.wake_eq hx, hstays hover.wake_eq hy]
      exact .settled (haccounts.trans hfinal) (hmore _ _ _ hback) (hmore _ _ _ hconcluded) hend
        hover

end Wake

/-- Where two sides are after a turn, and what was returned about it. -/
structure Went (c : Standoff) (s₀ : Store) (t : Traffic Direction)
    (concluded : Conclusions) (turn : Turn Direction) (d : Direction) (p q : TxId)
    (x y x' y' : Place) : Prop where
  standing : c.Standing (t.step c.operation turn).2 d p q x' y'
  phase : Phase c s₀ (t.step c.operation turn).2
    (fun e tx outcome => concluded e tx outcome ∨ c.Concludes e t tx outcome) d p q x' y'
  mine : x'.told p = x.told p ++ returns d (t.step c.operation turn).1
  theirs : y'.told q = y.told q ++ returns d.other (t.step c.operation turn).1

/-- A side has gone on. -/
theorem Advanced.went (x : Place) (concluded : Conclusions)
    (hadvanced : c.Advanced t d p q x' y) (hphase : Phase c s₀ t concluded d p q x' y)
    (htold : x'.told p = x.told p) :
    ∃ y', Went c s₀ t concluded (.advance p) d p q x y x' y' ∧ y'.rank = y.rank := by
  rcases hadvanced.standing with ⟨y', hy', hstanding⟩
  rcases Place.woken_eq hy' q with ⟨htold', hrank⟩
  refine ⟨y', ⟨hstanding, ?_, ?_, ?_⟩, hrank⟩
  · exact hphase.wake hadvanced.accounts hadvanced.due (fun _ _ _ => Or.inl) (Or.inl rfl) hy'
  · rw [hadvanced.told, htold]
    exact (List.append_nil _).symm
  · rw [hadvanced.told, htold']
    exact (List.append_nil _).symm

/-- The side that was the second one to ask has gone on. -/
theorem Advanced.went_theirs (y : Place) (concluded : Conclusions)
    (hadvanced : c.Advanced t d.other q p y' x) (hphase : Phase c s₀ t concluded d p q x y')
    (htold : y'.told q = y.told q) (hless : y'.rank < y.rank) :
    ∃ x' y', Went c s₀ t concluded (.advance q) d p q x y x' y' ∧
      x'.rank + y'.rank < x.rank + y.rank := by
  rcases hadvanced.standing with ⟨x', hx', hstanding⟩
  have hstanding := hstanding.swap
  rw [Direction.other_other] at hstanding
  rcases Place.woken_eq hx' p with ⟨htold', hrank⟩
  refine ⟨x', y', ⟨hstanding, ?_, ?_, ?_⟩, hrank ▸ Nat.add_lt_add_left hless _⟩
  · exact hphase.wake hadvanced.accounts hadvanced.due (fun _ _ _ => Or.inl) hx' (Or.inl rfl)
  · rw [hadvanced.told, htold']
    exact (List.append_nil _).symm
  · rw [hadvanced.told, htold]
    exact (List.append_nil _).symm

theorem returns_mine (d : Direction) (p : TxId) (outcome : Except Failure Unit) :
    returns d [.returned d (some p) outcome] = [(some p, outcome)] := by
  simp [returns, Report.returned?]

theorem returns_theirs (d : Direction) (p : TxId) (outcome : Except Failure Unit) :
    returns d.other [.returned d (some p) outcome] = [] := by
  simp [returns, Report.returned?, d.ne_other]

/-- A side that holds its first row and does not wait, as the store knows it. -/
theorem Place.Holding.record (h : x.Holding) (c : Standoff) (d : Direction) :
    x.record c d = some ⟨[c.row d], .empty, none⟩ ∧ x.mark c d = none := by
  cases h with
  | pausing => exact ⟨rfl, rfl⟩
  | asking => exact ⟨rfl, rfl⟩

section Turns

variable (h : c.Standing t d p q x y) (hphase : Phase c s₀ t concluded d p q x y)
include h hphase

-- One case for each way in which the sides can stand to each other, and in it one for each place of
-- the side that goes on. It gets nowhere only while it waits for a row of the other one.
/-- The side that was the first to wait goes on. -/
theorem mine_went (hleft : x.work c d ≠ none) :
    ∃ x' y', Went c s₀ t concluded (.advance p) d p q x y x' y' ∧
      (x'.rank + y'.rank < x.rank + y.rank ∨
        ∃ woken, x = .waiting woken ∧ y.work c d.other ≠ none) := by
  have hgoes : ∀ {z : Place}, c.Advanced t d p q z y → Phase c s₀ t concluded d p q z y →
      z.told p = x.told p → z.rank < x.rank →
      ∃ x' y', Went c s₀ t concluded (.advance p) d p q x y x' y' ∧
        (x'.rank + y'.rank < x.rank + y.rank ∨
          ∃ woken, x = .waiting woken ∧ y.work c d.other ≠ none) := by
    intro z hadvanced hphase htold hless
    rcases hadvanced.went x concluded hphase htold with ⟨y', hwent, hrank⟩
    exact ⟨z, y', hwent, Or.inl (hrank ▸ Nat.add_lt_add_right hless _)⟩
  cases hphase with
  | facing hsame hx hy =>
      rcases hy.record c d.other with ⟨hrecord, hmark⟩
      cases hx with
      | pausing => exact hgoes (move_pausing h rfl) (.facing hsame .asking hy) rfl (by decide)
      | asking =>
          exact hgoes (move_taken h .asking hrecord (by simp) hmark) (.blocked hsame false hy) rfl
            (by decide)
  | blocked hsame woken hy =>
      rcases hy.record c d.other with ⟨hrecord, hmark⟩
      have hstays := move_again h rfl hrecord (by simp) hmark
      rcases hstays.went (.waiting woken) concluded (.blocked hsame false hy) rfl with
        ⟨y', hwent, _⟩
      refine ⟨_, y', hwent, Or.inr ⟨woken, rfl, ?_⟩⟩
      cases hy <;> simp [Place.work]
  | struck hsame woken =>
      have hstays := move_again h rfl rfl (by simp) rfl
      rcases hstays.went (.waiting woken) concluded (.struck hsame false) rfl with
        ⟨y', hwent, _⟩
      exact ⟨_, y', hwent, Or.inr ⟨woken, rfl, by simp [Place.work]⟩⟩
  | relieved hsame hback hy =>
      exact hgoes (move_free h .woken hy) (.carriesOn hsame hback .writing hy) rfl (by decide)
  | carriesOn hsame hback hx hy =>
      cases hx with
      | writing =>
          exact hgoes (move_writing h rfl) (.carriesOn hsame hback .writingLast hy) rfl (by decide)
      | writingLast =>
          exact hgoes (move_writingLast h rfl) (.carriesOn hsame hback .committing hy) rfl
            (by decide)
      | committing =>
          rcases move_committing h rfl with ⟨htold, haccounts, hstanding⟩
          rcases Store.settled_congr hsame.accounts hsame.due (c.deltas d).entries with
            ⟨hsettled, houtcome⟩
          have hcommits : c.Concludes d t p (.ok ()) := by
            refine ⟨h.mine.task_of_work rfl, fun _ e => holder_of_record h.calm h.mine rfl ?_⟩
            rcases Direction.eq_or_other e d with rfl | rfl
            · simp
            · simp
          rw [hy.wake_eq] at hstanding
          refine ⟨_, y, ⟨hstanding, ?_, ?_, ?_⟩, Or.inl (Nat.add_lt_add_right ?_ _)⟩
          · rw [houtcome]
            exact .settled (haccounts.trans hsettled) (Or.inl hback) (Or.inr hcommits) .leaving hy
          · rw [htold]
            rfl
          · rw [htold]
            exact (List.append_nil _).symm
          · simp [Place.rank]
  | settled haccounts hback hconcluded hx hy =>
      cases hx with
      | gone => exact absurd rfl hleft
      | leaving =>
          rcases move_leaving h rfl with ⟨htold, hsame, _, hstanding⟩
          refine ⟨_, y, ⟨hstanding, ?_, ?_, ?_⟩, Or.inl (Nat.add_lt_add_right ?_ _)⟩
          · exact .settled (hsame.trans haccounts) (Or.inl hback) (Or.inl hconcluded) .gone hy
          · rw [htold, returns_mine]
            rfl
          · rw [htold, returns_theirs, List.append_nil]
          · simp [Place.rank]

end Turns

section Theirs

variable (h : c.Standing t d p q x y)
include h

/-- The side that was the second one to ask returns. -/
theorem theirs_returned {outcome : Except Failure Unit} (hy : y = .leaving outcome)
    (hphase : Phase c s₀ t concluded d p q x (.gone outcome)) :
    Went c s₀ t concluded (.advance q) d p q x y x (.gone outcome) := by
  subst hy
  rcases move_leaving h.swap rfl with ⟨htold, haccounts, hdue, hstanding⟩
  have hstanding := hstanding.swap
  rw [Direction.other_other] at hstanding
  refine ⟨hstanding, ?_, ?_, ?_⟩
  · exact hphase.wake haccounts hdue (fun _ _ _ => Or.inl) (Or.inl rfl) (Or.inl rfl)
  · rw [htold]
    have hnone := returns_theirs d.other q outcome
    rw [Direction.other_other] at hnone
    rw [hnone, List.append_nil]
  · rw [htold, returns_mine]
    rfl

/-- The side that was the second one to ask goes on. -/
theorem theirs_went (hphase : Phase c s₀ t concluded d p q x y) (hx : ¬ x.Holding)
    (hleft : y.work c d.other ≠ none) :
    ∃ x' y', Went c s₀ t concluded (.advance q) d p q x y x' y' ∧
      x'.rank + y'.rank < x.rank + y.rank := by
  cases hphase with
  | facing _ hholds => exact absurd hholds hx
  | blocked hsame woken hy =>
      cases hy with
      | pausing =>
          exact (move_pausing h.swap rfl).went_theirs .pausing concluded
            (.blocked hsame woken .asking) rfl (by decide)
      | asking =>
          -- The first row of the other side is its own first one, so the cycle is closed here.
          exact (move_cycle h.swap rfl rfl).went_theirs .asking concluded
            (.struck hsame woken) rfl (by simp [Place.rank])
  | struck hsame woken =>
      rcases move_retreating h.swap rfl with ⟨htold, haccounts, hdue, hstanding⟩
      have hstanding := hstanding.swap
      rw [Direction.other_other] at hstanding
      have hback : c.Concludes d.other t q (.error (c.fault d.other q p)) :=
        ⟨h.theirs.task_of_work rfl, nofun⟩
      refine ⟨_, _, ⟨hstanding, ?_, ?_, ?_⟩,
        Nat.add_lt_add_left (by simp [Place.rank]) _⟩
      · exact .relieved (hsame.keep haccounts hdue) (Or.inr hback) .leaving
      · rw [htold]
        rfl
      · rw [htold]
        rfl
  | relieved hsame hback hy =>
      cases hy with
      | gone => exact absurd rfl hleft
      | leaving =>
          exact ⟨_, _, theirs_returned h rfl (.relieved hsame hback .gone),
            Nat.add_lt_add_left (by simp [Place.rank]) _⟩
  | carriesOn hsame hback hboth hy =>
      cases hy with
      | gone => exact absurd rfl hleft
      | leaving =>
          exact ⟨_, _, theirs_returned h rfl (.carriesOn hsame hback hboth .gone),
            Nat.add_lt_add_left (by simp [Place.rank]) _⟩
  | settled haccounts hback hconcluded hend hy =>
      cases hy with
      | gone => exact absurd rfl hleft
      | leaving =>
          exact ⟨_, _, theirs_returned h rfl (.settled haccounts hback hconcluded hend .gone),
            Nat.add_lt_add_left (by simp [Place.rank]) _⟩

end Theirs

theorem returns_event (e : Event) (label : Direction) :
    returns label (t.step c.operation (.event e)).1 = [] := by
  rw [Traffic.step]
  split
  · rfl
  · exact returns_answered label _

/-- Others that keep away from the rows and commit nothing leave the accounts alone. -/
theorem untouched_event {e : Event} (haside : c.Aside e) :
    (t.step c.operation (.event e)).2.store.accounts = t.store.accounts ∧
      (t.step c.operation (.event e)).2.store.conflictsDue = t.store.conflictsDue := by
  rw [Traffic.step]
  split
  · exact ⟨rfl, rfl⟩
  · have hput : ∀ {s : Store} {tx : TxId} {o : OpenTx} {r : Request} {result : Reply × Store},
        Store.Examined s tx o r result →
        result.2.accounts = s.accounts ∧ result.2.conflictsDue = s.conflictsDue := by
      intro s tx o r result hlook
      rcases Store.exists_put hlook with ⟨o', locks, heq⟩
      rw [heq]
      exact ⟨Store.put_accounts .., Store.put_conflictsDue ..⟩
    have hstep := Store.stepped t.store e
    change (t.store.step e).2.accounts = t.store.accounts ∧
      (t.store.step e).2.conflictsDue = t.store.conflictsDue
    generalize t.store.step e = result at hstep
    cases hstep with
    | asked _ _ _ hlook => exact hput hlook
    | polled _ _ hlook => exact hput hlook
    | dropped => exact ⟨Store.release_accounts .., Store.release_conflictsDue ..⟩
    | rolledBack => exact ⟨Store.release_accounts .., Store.release_conflictsDue ..⟩
    | committed => exact haside.elim
    | inserted => exact haside.elim
    | injected => exact haside.elim
    | _ => exact ⟨rfl, rfl⟩

/-- Others leave the two sides as they stand to each other. -/
theorem event_went (h : c.Standing t d p q x y) (hphase : Phase c s₀ t concluded d p q x y)
    {e : Event} (haside : c.Aside e) :
    ∃ x' y', Went c s₀ t concluded (.event e) d p q x y x' y' := by
  have hallow : c.Allows (.event e) := haside
  rcases at_step h.calm h.mine hallow (by simp) with ⟨x', hx', hmine⟩
  rcases at_step h.calm h.theirs hallow (by simp) with ⟨y', hy', htheirs⟩
  rcases untouched_event (t := t) haside with ⟨haccounts, hdue⟩
  refine ⟨x', y', ⟨calm_step h.calm hallow, h.apart, ?_, hmine, htheirs⟩, ?_, ?_, ?_⟩
  · intro tx task htask
    rw [Traffic.step] at htask
    split at htask
    · exact h.only tx task htask
    · exact h.only tx task htask
  · exact hphase.wake haccounts hdue (fun _ _ _ => Or.inl) hx' hy'
  · rw [returns_event, List.append_nil]
    exact (Place.woken_eq hx' p).1
  · rw [returns_event, List.append_nil]
    exact (Place.woken_eq hy' q).1

/-- Two sides that have met, what they have returned so far, and how they have concluded. -/
inductive Stage (c : Standoff) (s₀ : Store) (t : Traffic Direction)
    (returned : Direction → List (Option TxId × Except Failure Unit))
    (concluded : Conclusions) : Prop where
  | stands {d : Direction} {p q : TxId} {x y : Place} (hstanding : c.Standing t d p q x y)
      (hphase : Phase c s₀ t concluded d p q x y) (hmine : returned d = x.told p)
      (htheirs : returned d.other = y.told q) : Stage c s₀ t returned concluded

theorem Went.stage {turn : Turn Direction}
    (hwent : Went c s₀ t concluded turn d p q x y x' y') (hmine : returned d = x.told p)
    (htheirs : returned d.other = y.told q) :
    Stage c s₀ (t.step c.operation turn).2
      (fun e => returned e ++ returns e (t.step c.operation turn).1)
      (fun e tx outcome => concluded e tx outcome ∨ c.Concludes e t tx outcome) :=
  .stands hwent.standing hwent.phase (by rw [hmine, hwent.mine]) (by rw [htheirs, hwent.theirs])

theorem Phase.mono (h : Phase c s₀ t concluded d p q x y)
    (hmore : ∀ e tx outcome, concluded e tx outcome → concluded' e tx outcome) :
    Phase c s₀ t concluded' d p q x y :=
  h.wake rfl rfl hmore (Or.inl rfl) (Or.inl rfl)

theorem Stage.mono (h : Stage c s₀ t returned concluded)
    (hmore : ∀ e tx outcome, concluded e tx outcome → concluded' e tx outcome) :
    Stage c s₀ t returned concluded' := by
  cases h with
  | stands hstanding hphase hmine htheirs =>
      exact .stands hstanding (hphase.mono hmore) hmine htheirs

theorem stage_step {turn : Turn Direction}
    (h : Stage c s₀ t returned concluded) (hallow : c.Allows turn)
    (hlaunch : ∀ label, turn ≠ .launch label) :
    Stage c s₀ (t.step c.operation turn).2
      (fun e => returned e ++ returns e (t.step c.operation turn).1)
      (fun e tx outcome => concluded e tx outcome ∨ c.Concludes e t tx outcome) := by
  cases h with
  | @stands d p q x y hstanding hphase hmine htheirs =>
      cases turn with
      | launch label => exact absurd rfl (hlaunch label)
      | cut => exact hallow.elim
      | event e =>
          rcases event_went hstanding hphase hallow with ⟨x', y', hwent⟩
          exact hwent.stage hmine htheirs
      | advance tx =>
          cases htask : t.tasks.get? tx with
          | none =>
              -- There is no such task.
              rw [show t.step c.operation (.advance tx) = ([], t) by rw [Traffic.step, htask]]
              refine (Stage.stands hstanding hphase ?_ ?_).mono fun _ _ _ => Or.inl
              · exact (List.append_nil _).trans hmine
              · exact (List.append_nil _).trans htheirs
          | some task =>
              rcases hstanding.only tx task htask with rfl | rfl
              · have hleft : x.work c d ≠ none := by
                  intro hnone
                  rw [hstanding.mine.task, hnone] at htask
                  simp at htask
                rcases mine_went hstanding hphase hleft with ⟨x', y', hwent, _⟩
                exact hwent.stage hmine htheirs
              · have hleft : y.work c d.other ≠ none := by
                  intro hnone
                  rw [hstanding.theirs.task, hnone] at htask
                  simp at htask
                by_cases hx : x.Holding
                · -- Neither has asked yet, so it is this side that asks first.
                  have hfacing : Phase c s₀ t concluded d.other tx p y x := by
                    cases hphase with
                    | facing hsame _ hy => exact .facing hsame hy hx
                    | carriesOn _ _ hboth => cases hx <;> cases hboth
                    | settled _ _ _ hend => cases hx <;> cases hend
                    | blocked => cases hx
                    | struck => cases hx
                    | relieved => cases hx
                  rcases mine_went hstanding.swap hfacing hleft with ⟨y', x', hwent, _⟩
                  exact hwent.stage htheirs (by rw [Direction.other_other]; exact hmine)
                · rcases theirs_went hstanding hphase hx hleft with ⟨x', y', hwent, _⟩
                  exact hwent.stage hmine htheirs

/-- What holds after each turn holds after all of them, and so does how they have concluded. -/
theorem stage_after (turns : List (Turn Direction)) (h : Stage c s₀ t returned concluded)
    (hallow : ∀ turn ∈ turns, c.Allows turn)
    (hlaunch : ∀ label, Turn.launch label ∉ turns) :
    Stage c s₀ (t.after c.operation turns)
      (fun e => returned e ++ returns e (t.reports c.operation turns))
      (fun e tx outcome => concluded e tx outcome ∨ ∃ before rest, turns = before ++ rest ∧
        c.Concludes e (t.after c.operation before) tx outcome) := by
  induction turns generalizing t returned concluded with
  | nil =>
      cases h with
      | stands hstanding hphase hmine htheirs =>
          refine .stands hstanding (hphase.mono fun _ _ _ => Or.inl) ?_ ?_
          · exact (List.append_nil _).trans hmine
          · exact (List.append_nil _).trans htheirs
  | cons turn rest ih =>
      have hfirst := stage_step h (hallow turn List.mem_cons_self)
        fun label hc => hlaunch label (hc ▸ List.mem_cons_self)
      have hlast := ih hfirst (fun turn' hturn' => hallow turn' (List.mem_cons_of_mem _ hturn'))
        fun label hc => hlaunch label (List.mem_cons_of_mem _ hc)
      have htold : (fun e => (returned e ++ returns e (t.step c.operation turn).1) ++
          returns e ((t.step c.operation turn).2.reports c.operation rest)) =
          fun e => returned e ++ returns e (t.reports c.operation (turn :: rest)) := by
        funext e
        rw [Traffic.reports, returns_append, List.append_assoc]
      rw [htold] at hlast
      refine hlast.mono ?_
      rintro e tx outcome ((hbefore | hcommits) | ⟨before, rest', rfl, hcommits⟩)
      · exact Or.inl hbefore
      · exact Or.inr ⟨[], turn :: rest, rfl, hcommits⟩
      · exact Or.inr ⟨turn :: before, rest', rfl, hcommits⟩

/-- A side that cannot go on waits or has returned. -/
theorem At.of_exhausted (h : c.At d t tx x) (hexhausted : t.Exhausted) :
    x = .waiting false ∨ ∃ outcome, x = .gone outcome := by
  cases hwork : x.work c d with
  | none =>
      cases x with
      | gone outcome => exact Or.inr ⟨outcome, rfl⟩
      | _ => simp [Place.work] at hwork
  | some w =>
      rcases hexhausted tx _ (h.task_of_work hwork) with ⟨r, hwait⟩
      rw [Store.wait?, h.record] at hwait
      cases x with
      | waiting woken =>
          simp only [Place.record, Option.bind_some, Option.some.injEq, Wait.mk.injEq] at hwait
          exact Or.inl (by rw [hwait.2])
      | _ => simp [Place.record, OpenTx.fresh] at hwait

/-- When nobody can go on, both sides have returned. -/
theorem returned_of_exhausted (h : c.Standing t d p q x y)
    (hphase : Phase c s₀ t concluded d p q x y) (hexhausted : t.Exhausted) :
    x = .gone (s₀.outcome (c.deltas d).entries) ∧ y = .gone (.error (c.fault d.other q p)) ∧
      t.store.accounts = s₀.settledAccounts (c.deltas d).entries ∧ concluded d p (.ok ()) ∧
      concluded d.other q (.error (c.fault d.other q p)) := by
  have hx := h.mine.of_exhausted hexhausted
  have hy := h.theirs.of_exhausted hexhausted
  cases hphase with
  | facing _ hholds => cases hholds <;> simp at hx
  | blocked _ _ hholds => cases hholds <;> simp at hy
  | struck => simp at hy
  | relieved => simp at hx
  | carriesOn _ _ hboth => cases hboth <;> simp at hx
  | settled haccounts hback hconcluded hend hover =>
      cases hend with
      | leaving => simp at hx
      | gone =>
          cases hover with
          | leaving => simp at hy
          | gone => exact ⟨rfl, rfl, haccounts, hconcluded, hback⟩

/-- When both sides have returned nobody has a task. -/
theorem Standing.no_task (h : c.Standing t d p q x y) (hx : x.work c d = none)
    (hy : y.work c d.other = none) (tx : TxId) : t.tasks.get? tx = none := by
  rw [Option.eq_none_iff_forall_ne_some]
  intro task htask
  rcases h.only tx task htask with rfl | rfl
  · rw [h.mine.task, hx] at htask
    simp at htask
  · rw [h.theirs.task, hy] at htask
    simp at htask

theorem exhausted_of_no_task (h : ∀ tx, t.tasks.get? tx = none) : t.Exhausted := by
  intro tx task htask
  rw [h tx] at htask
  simp at htask

/-- Two sides that have met can always be brought to their ends. -/
theorem exists_exhausted {n : Nat} (hrank : x.rank + y.rank = n) (h : c.Standing t d p q x y)
    (hphase : Phase c s₀ t concluded d p q x y) :
    ∃ more : List TxId, (t.after c.operation (more.map .advance)).Exhausted := by
  induction n using Nat.strong_induction_on generalizing t x y concluded with
  | _ n ih =>
      have hgoes : ∀ {tx x' y'}, Went c s₀ t concluded (.advance tx) d p q x y x' y' →
          x'.rank + y'.rank < x.rank + y.rank →
          ∃ more : List TxId, (t.after c.operation (more.map .advance)).Exhausted := by
        intro tx x' y' hwent hless
        rcases ih _ (hrank ▸ hless) rfl hwent.standing hwent.phase with ⟨more, hmore⟩
        exact ⟨tx :: more, hmore⟩
      have htheirs : ¬ x.Holding → y.work c d.other ≠ none →
          ∃ more : List TxId, (t.after c.operation (more.map .advance)).Exhausted := by
        intro hx hleft
        rcases theirs_went h hphase hx hleft with ⟨x', y', hwent, hless⟩
        exact hgoes hwent hless
      by_cases hx : x.work c d = none
      · have hnot : ¬ x.Holding := by
          rintro ⟨⟩
          · simp [Place.work] at hx
          · simp [Place.work] at hx
        by_cases hy : y.work c d.other = none
        · exact ⟨[], exhausted_of_no_task (h.no_task hx hy)⟩
        · exact htheirs hnot hy
      · rcases mine_went h hphase hx with ⟨x', y', hwent, hless | ⟨woken, hwaits, hleft⟩⟩
        · exact hgoes hwent hless
        · -- The side waits for the other one, so it is the other one that has to go on.
          refine htheirs ?_ hleft
          rw [hwaits]
          rintro ⟨⟩

end Standoff

end RowLedger
