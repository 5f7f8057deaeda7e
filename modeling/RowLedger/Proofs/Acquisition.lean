import Mathlib.Data.List.Sort
import RowLedger.Proofs.Exclusion
import RowLedger.Proofs.Utf8Order

/-!
# All names or none

A call gets all the names it asks for or none of them. The names are looked at
in the order of their bytes, so the one that a call is refused for is the least
of those that are held. They are looked at before any is taken, so a call that
is refused leaves nothing behind. And since they are sorted first and each is
kept once, it makes no difference in which order they are asked for, or how
often.

## Main definitions

* `NamedLocks.LeastHeld`: The first of some names that is held.

## Theorems

* `canonicalNames_congr`: Only the set of the names counts.
* `leastHeld_of_busy?`: The name that is told is the least that is held.
* `enter_free`, `enter_held`: What comes of asking for names.
* `all_or_nothing`: What comes of a call.
-/

namespace RowLedger

theorem pairwise_canonicalNames (names : List String) :
    (canonicalNames names).Pairwise (· < ·) :=
  Table.pairwise_keys _

/-- Only the set of the names counts. -/
theorem canonicalNames_congr {names names' : List String}
    (h : ∀ name, name ∈ names ↔ name ∈ names') : canonicalNames names = canonicalNames names' := by
  refine (pairwise_canonicalNames names).eq_of_mem_iff (pairwise_canonicalNames names') ?_
  intro name
  rw [mem_canonicalNames, mem_canonicalNames]
  exact h name

namespace NamedLocks

variable {l : NamedLocks} {names : List String} {name : String}

/-- The name comes first, by its bytes, among those of the list that are held. -/
structure LeastHeld (l : NamedLocks) (names : List String) (name : String) : Prop where
  mem : name ∈ names
  held : l.isHeld name = true
  least : ∀ other ∈ names, l.isHeld other = true → other ≠ name → utf8Bytes name < utf8Bytes other

/-- No name is told if none is held. -/
theorem busy?_eq_none : l.busy? names = none ↔ ∀ name ∈ names, l.isHeld name = false := by
  rw [busy?, List.find?_eq_none]
  constructor
  · intro h name hname
    simpa using h name (mem_canonicalNames.2 hname)
  · intro h name hname
    simp [h name (mem_canonicalNames.1 hname)]

/-- The name that is told is the least that is held. -/
theorem leastHeld_of_busy? (h : l.busy? names = some name) : l.LeastHeld names name := by
  rcases List.find?_eq_some_iff_append.1 h with ⟨hheld, before, later, hnames, hfree⟩
  refine ⟨mem_canonicalNames.1 (List.mem_of_find?_eq_some h), hheld, ?_⟩
  intro other hother hheld' hne
  have hmem := mem_canonicalNames.2 hother
  rw [hnames, List.mem_append, List.mem_cons] at hmem
  rcases hmem with hbefore | rfl | hlater
  · have hnot := hfree other hbefore
    rw [hheld'] at hnot
    simp at hnot
  · exact absurd rfl hne
  · have hsorted := pairwise_canonicalNames names
    rw [hnames, List.pairwise_append, List.pairwise_cons] at hsorted
    exact lt_iff_utf8Bytes_lt.1 (hsorted.2.1.1 other hlater)

/-- Nothing counts about a request but the set of its names. -/
theorem enter_congr {names' : List String} (h : ∀ name, name ∈ names ↔ name ∈ names') :
    l.enter names = l.enter names' := by
  rw [enter, enter, busy?, busy?, start, start, canonicalNames_congr h]

end NamedLocks

namespace LockDesk

variable {d : LockDesk} {names : List String}

/-- Names of which none is held are all added, and nothing else is changed. -/
theorem enter_free (hfree : ∀ name ∈ names, d.locks.isHeld name = false) :
    ∃ (number : Nat) (entered : LockDesk), d.enter names = (.ok number, entered) ∧
      entered.slots = d.slots ∧
      entered.locks.running.get? number = some (canonicalNames names) ∧
      ∀ name, entered.locks.isHeld name = true ↔ name ∈ names ∨ d.locks.isHeld name = true := by
  refine ⟨d.locks.started, { d with locks := d.locks.start names }, ?_, rfl, ?_, ?_⟩
  · rw [enter, NamedLocks.enter, NamedLocks.busy?_eq_none.2 hfree]
  · rw [NamedLocks.running_start, if_pos rfl]
  · intro name
    rw [NamedLocks.isHeld_start, mem_canonicalNames]

/-- If a name is held, the least of those is told, and the locks are left as they are. -/
theorem enter_held (hheld : ∃ name ∈ names, d.locks.isHeld name = true) :
    ∃ (name : String) (refused : LockDesk),
      d.enter names = (.error (.alreadyLocked name), refused) ∧
      refused.locks = d.locks ∧ refused.slots = d.slots ∧ d.locks.LeastHeld names name := by
  cases hbusy : d.locks.busy? names with
  | none =>
      rcases hheld with ⟨name, hname, hheld⟩
      rw [NamedLocks.busy?_eq_none.1 hbusy name hname] at hheld
      simp at hheld
  | some name =>
      let notice := Notice.resourceBusy name (canonicalNames names).length
      refine ⟨name, { d with notices := d.notices ++ [notice] }, ?_, rfl, rfl,
        NamedLocks.leastHeld_of_busy? hbusy⟩
      rw [enter, NamedLocks.enter, hbusy]

/-- Nothing counts about a request but the set of its names. -/
theorem enter_congr {names' : List String} (h : ∀ name, name ∈ names ↔ name ∈ names') :
    d.enter names = d.enter names' := by
  rw [enter, enter, NamedLocks.enter_congr h, canonicalNames_congr h]

/-- If none of its names is held, a call runs its body, once, with all of them added to those that
are held. Otherwise it does not run the body and leaves what is held as it is, and it is refused for
the least of its names that is held. The same goes for a body that is kept open in a slot. And two
calls do the same if they ask for the same set of names. -/
theorem all_or_nothing (d : LockDesk) (names : List String) :
    ((∀ name ∈ names, d.locks.isHeld name = false) →
      ∃ (number : Nat) (entered : LockDesk), entered.slots = d.slots ∧
        entered.locks.running.get? number = some (canonicalNames names) ∧
        (∀ name, entered.locks.isHeld name = true ↔
          name ∈ names ∨ d.locks.isHeld name = true) ∧
        (∀ body ending, d.step (.within names body ending) =
          (.ran ending (entered.run body).1, (entered.run body).2.leave number)) ∧
        ∀ slot, d.slots.contains slot = false → d.step (.hold slot names) =
          (.holding, { entered with slots := entered.slots.insert slot number })) ∧
      ((∃ name ∈ names, d.locks.isHeld name = true) →
        ∃ (name : String) (refused : LockDesk),
          refused.locks = d.locks ∧ refused.slots = d.slots ∧ d.locks.LeastHeld names name ∧
          (∀ body ending, d.step (.within names body ending) =
            (.notRun (.alreadyLocked name), refused)) ∧
          ∀ slot, d.slots.contains slot = false → d.step (.hold slot names) =
            (.refused (.alreadyLocked name), refused)) ∧
      ∀ names', (∀ name, name ∈ names ↔ name ∈ names') →
        (∀ body ending, d.step (.within names body ending) = d.step (.within names' body ending)) ∧
        ∀ slot, d.step (.hold slot names) = d.step (.hold slot names') := by
  refine ⟨?_, ?_, ?_⟩
  · intro hfree
    rcases enter_free hfree with ⟨number, entered, henter, hslots, hrunning, hheld⟩
    refine ⟨number, entered, hslots, hrunning, hheld, ?_, ?_⟩
    · intro body ending
      simp only [step, henter]
    · intro slot hslot
      simp only [step, hslot, henter, Bool.false_eq_true, if_false]
  · intro hheld
    rcases enter_held hheld with ⟨name, refused, henter, hlocks, hslots, hleast⟩
    refine ⟨name, refused, hlocks, hslots, hleast, ?_, ?_⟩
    · intro body ending
      simp only [step, henter]
    · intro slot hslot
      simp only [step, hslot, henter, Bool.false_eq_true, if_false]
  · intro names' hsame
    refine ⟨?_, ?_⟩
    · intro body ending
      simp only [step, enter_congr hsame]
    · intro slot
      simp only [step, enter_congr hsame]

-- The bytes of the accented letter come after all ASCII letters.
/-- Two names are held in a slot. A call for two others runs, a call for both is refused. -/
theorem all_or_nothing_slot :
    let d := (LockDesk.empty.step (.hold "s" ["é", "z"])).2
    (∃ entered : LockDesk, entered.locks.isHeld "a" = true ∧ entered.locks.isHeld "z" = true ∧
        (d.step (.within ["b", "a", "b"] [.count] .done)).1 =
          .ran .done (entered.run [.count]).1) ∧
      (d.locks.LeastHeld ["é", "a", "z", "é"] "z" ∧
        (d.step (.within ["é", "a", "z", "é"] [.count] .done)).1 =
          .notRun (.alreadyLocked "z")) ∧
      d.step (.hold "t" ["b", "a", "b"]) = d.step (.hold "t" ["a", "b"]) := by
  intro d
  have hheld : d.locks.isHeld "z" = true := by decide
  rcases all_or_nothing d ["b", "a", "b"] with ⟨hfree, _, hsame⟩
  rcases all_or_nothing d ["é", "a", "z", "é"] with ⟨_, hbusy, _⟩
  rcases hfree (by decide) with ⟨number, entered, _, _, hnames, hran, _⟩
  rcases hbusy ⟨"z", by decide, hheld⟩ with ⟨name, refused, _, _, hleast, hrefused, _⟩
  have hname : name = "z" := by
    have hanswer : (d.step (.within ["é", "a", "z", "é"] [.count] .done)).1 =
        .notRun (.alreadyLocked "z") := rfl
    rw [hrefused] at hanswer
    simpa using hanswer
  subst hname
  refine ⟨⟨entered, ?_, ?_, by rw [hran]⟩, ⟨hleast, by rw [hrefused]⟩, ?_⟩
  · exact (hnames "a").2 (Or.inl (by decide))
  · exact (hnames "z").2 (Or.inr hheld)
  · exact (hsame ["a", "b"] (by simp)).2 "t"

end LockDesk

end RowLedger
