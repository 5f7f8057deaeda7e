import Mathlib.Data.List.Induction
import RowLedger.NamedLocks.History

/-!
# Exclusion by named locks

What a body gives back when it ends are its names, and nobody looks at who put
them into the set of held names. That this never frees a name of another body
rests on one fact about all bodies that run: no two of them have a name in
common. A body starts only if none of its names is held, so this stays true,
in whatever order bodies start and end; and with it the set is exactly the
union of the names of the bodies that run. In particular it is empty when none
does.

## Main definitions

* `NamedLocks.Sound`: The held names are those of the running bodies, each of
  one body.
* `LockDesk.Keeps`: The bodies that run are those of the slots and those that
  the call is nested in.

## Theorems

* `mem_canonicalNames`: Sorting neither loses nor adds a name.
* `sound_step`, `sound_after`: What a body gives back belongs to no other.
* `running_iff`: There is a record of each body that runs, and of no other.
* `step_locks`, `run_locks`: A script does what its history does.
* `keeps_step`, `keeps_run`: After a script only the bodies of its slots run.
* `held_by_running`: Held are the names of the running bodies, in every history.
-/

namespace RowLedger

namespace NamedLocks

/-- The names that are put in are there then. -/
theorem isSome_foldl_insert (names : List String) (t : Table String Unit) (name : String) :
    ((names.foldl (fun t n => t.insert n ()) t).get? name).isSome = true ↔
      name ∈ names ∨ (t.get? name).isSome = true := by
  have hall := Table.isSome_foldl_insert (names.map fun n => (n, ())) t name
  rw [List.foldl_map, List.map_map] at hall
  simpa using hall

/-- The names that are taken out are gone then. -/
theorem isSome_foldl_erase (names : List String) (t : Table String Unit) (name : String) :
    ((names.foldl (fun t n => t.erase n) t).get? name).isSome = true ↔
      name ∉ names ∧ (t.get? name).isSome = true := by
  induction names generalizing t with
  | nil => simp
  | cons first rest ih =>
      rw [List.foldl_cons, ih, Table.get?_erase, List.mem_cons]
      by_cases hname : first = name
      · simp [hname]
      · simp [hname, show name ≠ first from fun h => hname h.symm]

end NamedLocks

/-- Sorting neither loses nor adds a name. -/
theorem mem_canonicalNames {names : List String} {name : String} :
    name ∈ canonicalNames names ↔ name ∈ names := by
  rw [canonicalNames, Table.mem_keys_ofList, List.map_map]
  simp

namespace NamedLocks

/-- The held names are those of the running bodies, and each of them is of one body. -/
structure Sound (l : NamedLocks) : Prop where
  held_iff : ∀ name, l.isHeld name = true ↔
    ∃ body names, l.running.get? body = some names ∧ name ∈ names
  apart : ∀ body other names names', l.running.get? body = some names →
    l.running.get? other = some names' → body ≠ other → ∀ name ∈ names, name ∉ names'
  started : ∀ body names, l.running.get? body = some names → body < l.started

variable {l l' : NamedLocks} {names : List String} {body : Nat}

/-- A body starts only if none of its names is held. -/
theorem enter_ok (h : l.enter names = .ok (body, l')) :
    body = l.started ∧ l' = l.start names ∧ ∀ name ∈ canonicalNames names,
      l.isHeld name = false := by
  rw [enter] at h
  cases hbusy : l.busy? names with
  | some name => simp [hbusy] at h
  | none =>
      simp only [hbusy, Except.ok.injEq, Prod.mk.injEq] at h
      refine ⟨h.1.symm, h.2.symm, ?_⟩
      intro name hname
      simpa using List.find?_eq_none.1 hbusy name hname

theorem running_start (l : NamedLocks) (names : List String) (body : Nat) :
    (l.start names).running.get? body =
      if l.started = body then some (canonicalNames names) else l.running.get? body := by
  rw [start, Table.get?_insert]

theorem isHeld_start (l : NamedLocks) (names : List String) (name : String) :
    (l.start names).isHeld name = true ↔ name ∈ canonicalNames names ∨ l.isHeld name = true :=
  isSome_foldl_insert _ _ _

theorem running_leave (l : NamedLocks) (body other : Nat) :
    (l.leave body).running.get? other =
      if body = other then none else l.running.get? other := by
  rw [leave]
  cases hrunning : l.running.get? body with
  | some names => rw [Table.get?_erase]
  | none =>
      by_cases heq : body = other
      · rw [if_pos heq, ← heq, hrunning]
      · rw [if_neg heq]

theorem started_leave (l : NamedLocks) (body : Nat) : (l.leave body).started = l.started := by
  rw [leave]
  cases l.running.get? body with
  | some names => rfl
  | none => rfl

theorem isHeld_leave (hrunning : l.running.get? body = some names) (name : String) :
    (l.leave body).isHeld name = true ↔ name ∉ names ∧ l.isHeld name = true := by
  rw [leave, hrunning]
  exact isSome_foldl_erase _ _ _

-- The new names were free, so they are apart from those of all other bodies.
theorem sound_start (h : l.Sound) (hfree : ∀ name ∈ canonicalNames names, l.isHeld name = false) :
    (l.start names).Sound := by
  have hold : ∀ {other names'}, (l.start names).running.get? other = some names' →
      (l.started = other ∧ canonicalNames names = names') ∨
        l.running.get? other = some names' := by
    intro other names' hrunning
    rw [running_start] at hrunning
    by_cases heq : l.started = other
    · rw [if_pos heq, Option.some.injEq] at hrunning
      exact Or.inl ⟨heq, hrunning⟩
    · rw [if_neg heq] at hrunning
      exact Or.inr hrunning
  have hkeep : ∀ {other names'}, l.running.get? other = some names' →
      (l.start names).running.get? other = some names' := by
    intro other names' hrunning
    rw [running_start, if_neg (Nat.ne_of_gt (h.started other names' hrunning)), hrunning]
  have hnew : ∀ {other names'}, l.running.get? other = some names' → ∀ name ∈ names',
      name ∉ canonicalNames names := by
    intro other names' hrunning name hname hmem
    have hheld := (h.held_iff name).2 ⟨other, names', hrunning, hname⟩
    rw [hfree name hmem] at hheld
    simp at hheld
  refine ⟨?_, ?_, ?_⟩
  · intro name
    rw [isHeld_start, h.held_iff]
    constructor
    · rintro (hmem | ⟨other, names', hrunning, hname⟩)
      · exact ⟨l.started, _, by rw [running_start, if_pos rfl], hmem⟩
      · exact ⟨other, names', hkeep hrunning, hname⟩
    · rintro ⟨other, names', hrunning, hname⟩
      rcases hold hrunning with ⟨_, rfl⟩ | hbefore
      · exact Or.inl hname
      · exact Or.inr ⟨other, names', hbefore, hname⟩
  · intro one other names₁ names₂ hone hother hne name hmem
    rcases hold hone with ⟨rfl, rfl⟩ | hone
    · rcases hold hother with ⟨heq, _⟩ | hother
      · exact absurd heq hne
      · exact fun hname => hnew hother name hname hmem
    · rcases hold hother with ⟨_, rfl⟩ | hother
      · exact hnew hone name hmem
      · exact h.apart one other names₁ names₂ hone hother hne name hmem
  · intro other names' hrunning
    rcases hold hrunning with ⟨rfl, _⟩ | hbefore
    · exact Nat.lt_succ_self _
    · exact Nat.lt_succ_of_lt (h.started other names' hbefore)

/-- What a body gives back belongs to no other body. -/
theorem sound_leave (h : l.Sound) (body : Nat) : (l.leave body).Sound := by
  cases hrunning : l.running.get? body with
  | none =>
      have hsame : l.leave body = l := by rw [leave, hrunning]
      rw [hsame]
      exact h
  | some names =>
      have hold : ∀ {other names'}, (l.leave body).running.get? other = some names' →
          body ≠ other ∧ l.running.get? other = some names' := by
        intro other names' hother
        rw [running_leave] at hother
        by_cases heq : body = other
        · simp [heq] at hother
        · rw [if_neg heq] at hother
          exact ⟨heq, hother⟩
      refine ⟨?_, ?_, ?_⟩
      · intro name
        rw [isHeld_leave hrunning, h.held_iff]
        constructor
        · rintro ⟨hnot, other, names', hother, hname⟩
          have hne : body ≠ other := by
            rintro rfl
            rw [hrunning, Option.some.injEq] at hother
            exact hnot (hother ▸ hname)
          exact ⟨other, names', by rw [running_leave, if_neg hne, hother], hname⟩
        · rintro ⟨other, names', hother, hname⟩
          rcases hold hother with ⟨hne, hbefore⟩
          exact ⟨h.apart other body names' names hbefore hrunning hne.symm name hname,
            other, names', hbefore, hname⟩
      · intro one other names₁ names₂ hone hother
        exact h.apart one other names₁ names₂ (hold hone).2 (hold hother).2
      · intro other names' hother
        rw [started_leave]
        exact h.started other names' (hold hother).2

theorem sound_step (h : l.Sound) (e : LockEvent) : (l.step e).Sound := by
  cases e with
  | leave body => exact sound_leave h body
  | enter names =>
      rw [step]
      cases henter : l.enter names with
      | error name => exact h
      | ok started =>
          rcases enter_ok henter with ⟨_, heq, hfree⟩
          simp only [heq]
          exact sound_start h hfree

theorem sound_empty : empty.Sound where
  held_iff := by simp [empty, isHeld, Table.contains]
  apart := by simp [empty]
  started := by simp [empty]

theorem sound_after (h : l.Sound) (history : List LockEvent) : (l.after history).Sound := by
  induction history generalizing l with
  | nil => exact h
  | cons e rest ih => exact ih (sound_step h e)

theorem after_concat (l : NamedLocks) (history : List LockEvent) (e : LockEvent) :
    l.after (history ++ [e]) = (l.after history).step e :=
  after_append l history [e]

/-- A body runs on unless the last event ends it, or that event has started it. -/
theorem running_concat {history : List LockEvent} {e : LockEvent} :
    Running (history ++ [e]) body names ↔
      (Running history body names ∧ e ≠ .leave body) ∨
        (e = .enter names ∧ ∃ l, (empty.after history).enter names = .ok (body, l)) := by
  constructor
  · rintro ⟨before, later, heq, hok, hnot⟩
    rcases List.eq_nil_or_concat later with rfl | ⟨later', last, rfl⟩
    · rcases List.append_inj' heq rfl with ⟨rfl, hlast⟩
      rw [List.cons.injEq] at hlast
      exact Or.inr ⟨hlast.1, hok⟩
    · rw [List.concat_eq_append] at heq hnot
      rw [← List.cons_append, ← List.append_assoc] at heq
      rcases List.append_inj' heq rfl with ⟨rfl, hlast⟩
      rw [List.cons.injEq] at hlast
      rw [List.mem_append, List.mem_singleton, not_or] at hnot
      refine Or.inl ⟨⟨before, later', rfl, hok, hnot.1⟩, ?_⟩
      rw [hlast.1]
      exact fun hc => hnot.2 hc.symm
  · rintro (⟨⟨before, later, rfl, hok, hnot⟩, hne⟩ | ⟨rfl, hok⟩)
    · refine ⟨before, later ++ [e], by simp, hok, ?_⟩
      rw [List.mem_append, List.mem_singleton, not_or]
      exact ⟨hnot, fun hc => hne hc.symm⟩
    · exact ⟨history, [], rfl, hok, List.not_mem_nil⟩

theorem running_concat_leave {history : List LockEvent} {other : Nat} :
    Running (history ++ [.leave other]) body names ↔
      Running history body names ∧ other ≠ body := by
  simp [running_concat]

theorem running_concat_enter {history : List LockEvent} {asked : List String} :
    Running (history ++ [.enter asked]) body names ↔
      Running history body names ∨
        (asked = names ∧ ∃ l, (empty.after history).enter asked = .ok (body, l)) := by
  simp only [running_concat, ne_eq, reduceCtorEq, not_false_eq_true, and_true,
    LockEvent.enter.injEq]
  refine or_congr_right (and_congr_right fun heq => ?_)
  rw [heq]

-- Induction on the history from its end, where bodies start and end.
/-- There is a record of each body that runs, with its names in order. -/
theorem running_iff (history : List LockEvent) (body : Nat) (held : List String) :
    (empty.after history).running.get? body = some held ↔
      ∃ names, Running history body names ∧ canonicalNames names = held := by
  induction history using List.reverseRecOn generalizing body held with
  | nil =>
      refine iff_of_false (by simp [empty]) ?_
      rintro ⟨names, ⟨before, later, heq, _⟩, _⟩
      simp at heq
  | append_singleton history e ih =>
      rw [after_concat]
      cases e with
      | leave other =>
          rw [step, running_leave]
          simp only [running_concat_leave]
          by_cases heq : other = body
          · simp [heq]
          · simp [heq, ih]
      | enter asked =>
          rw [step]
          simp only [running_concat_enter]
          cases henter : (empty.after history).enter asked with
          | error name => simp [ih]
          | ok started =>
              rcases enter_ok henter with ⟨hnumber, hstart, _⟩
              simp only [hstart, running_start, Except.ok.injEq]
              by_cases heq : (empty.after history).started = body
              · -- No body before had this number, so the new one is the only one with it.
                have hnew : ∀ names, ¬Running history body names := by
                  intro names hrunning
                  have hget := (ih body _).2 ⟨names, hrunning, rfl⟩
                  have hlt := (sound_after sound_empty history).started body _ hget
                  exact absurd heq (Nat.ne_of_gt hlt)
                rw [if_pos heq, Option.some.injEq]
                constructor
                · intro hheld
                  exact ⟨asked, Or.inr ⟨rfl, started.2, by rw [← heq, ← hnumber]⟩, hheld⟩
                · rintro ⟨names, hrunning | ⟨rfl, _⟩, hheld⟩
                  · exact absurd hrunning (hnew names)
                  · exact hheld
              · have hother : ∀ l, started ≠ (body, l) :=
                  fun l hc => heq (hnumber.symm.trans (congrArg Prod.fst hc))
                rw [if_neg heq, ih]
                simp [hother]

end NamedLocks

namespace LockDesk

variable {d d' : LockDesk} {names : List String} {number : Nat} {outer : List Nat}

theorem enter_ok (h : d.enter names = (.ok number, d')) :
    d.locks.enter names = .ok (number, d'.locks) ∧ d'.slots = d.slots := by
  rw [enter] at h
  cases henter : d.locks.enter names with
  | error name => simp [henter] at h
  | ok started =>
      simp only [henter, Prod.mk.injEq, Except.ok.injEq] at h
      rcases h with ⟨rfl, rfl⟩
      exact ⟨rfl, rfl⟩

theorem enter_error {failure : Failure} (h : d.enter names = (.error failure, d')) :
    (∃ name, d.locks.enter names = .error name) ∧ d'.locks = d.locks ∧ d'.slots = d.slots := by
  rw [enter] at h
  cases henter : d.locks.enter names with
  | ok started => simp [henter] at h
  | error name =>
      simp only [henter, Prod.mk.injEq] at h
      rcases h with ⟨_, rfl⟩
      exact ⟨⟨name, rfl⟩, rfl, rfl⟩

theorem step_enter_ok (h : d.enter names = (.ok number, d')) :
    d.locks.step (.enter names) = d'.locks := by
  rw [NamedLocks.step, (enter_ok h).1]

theorem step_enter_error {failure : Failure} (h : d.enter names = (.error failure, d')) :
    d.locks.step (.enter names) = d'.locks := by
  rcases enter_error h with ⟨⟨name, hname⟩, hlocks, _⟩
  rw [NamedLocks.step, hname, hlocks]

theorem closeSlot_locks (d : LockDesk) (slot : String) (answer : LockAnswer) :
    (d.closeSlot slot answer).2.locks =
      d.locks.after ((d.slots.get? slot).map LockEvent.leave).toList := by
  rw [closeSlot]
  cases d.slots.get? slot with
  | none => rfl
  | some body => rfl

mutual

/-- A call does to the locks what its history does. -/
theorem step_locks (d : LockDesk) (s : LockStep) :
    (d.step s).2.locks = d.locks.after (d.history s) := by
  cases s with
  | count => simp only [step, history, NamedLocks.after_nil]
  | isHeld name => simp only [step, history, NamedLocks.after_nil]
  | malformed => simp only [step, history, NamedLocks.after_nil]
  | close slot ending =>
      simp only [step, history]
      exact closeSlot_locks _ _ _
  | abort slot =>
      simp only [step, history]
      exact closeSlot_locks _ _ _
  | hold slot names =>
      simp only [step, history]
      by_cases hopen : d.slots.contains slot = true
      · simp only [hopen, if_true, NamedLocks.after_nil]
      · simp only [hopen]
        rcases henter : d.enter names with ⟨failure | number, d'⟩
        · exact (step_enter_error henter).symm
        · exact (step_enter_ok henter).symm
  | within names body ending =>
      simp only [step, history]
      rcases henter : d.enter names with ⟨failure | number, d'⟩
      · exact (step_enter_error henter).symm
      · rw [NamedLocks.after_cons, step_enter_ok henter, NamedLocks.after_append,
          ← run_locks d' body]
        rfl

theorem run_locks (d : LockDesk) (script : List LockStep) :
    (d.run script).2.locks = d.locks.after (d.historyAll script) := by
  cases script with
  | nil => simp only [run, historyAll, NamedLocks.after_nil]
  | cons s rest =>
      simp only [run, historyAll]
      rw [NamedLocks.after_append, ← step_locks d s]
      exact run_locks (d.step s).2 rest

end

/-- The bodies that run are those of the open slots and those that the call is nested in, and
no body is counted twice. -/
structure Keeps (outer : List Nat) (d : LockDesk) : Prop where
  sound : d.locks.Sound
  running_iff : ∀ body, (d.locks.running.get? body).isSome = true ↔
    body ∈ outer ∨ ∃ slot, d.slots.get? slot = some body
  once : ∀ slot other body, d.slots.get? slot = some body → d.slots.get? other = some body →
    slot = other
  apart : ∀ slot body, d.slots.get? slot = some body → body ∉ outer

theorem Keeps.of_locks_eq (h : d.Keeps outer) (hlocks : d'.locks = d.locks)
    (hslots : d'.slots = d.slots) : d'.Keeps outer where
  sound := hlocks ▸ h.sound
  running_iff := by rw [hlocks, hslots]; exact h.running_iff
  once := by rw [hslots]; exact h.once
  apart := by rw [hslots]; exact h.apart

/-- A body that starts is one more that the calls are nested in. -/
theorem keeps_enter (h : d.Keeps outer) (henter : d.enter names = (.ok number, d')) :
    d'.Keeps (number :: outer) ∧ number ∉ outer := by
  rcases enter_ok henter with ⟨hlocks, hslots⟩
  rcases NamedLocks.enter_ok hlocks with ⟨rfl, hstart, hfree⟩
  have hlt : ∀ body, (body ∈ outer ∨ ∃ slot, d.slots.get? slot = some body) →
      body < d.locks.started := by
    intro body hbody
    rcases Option.isSome_iff_exists.1 ((h.running_iff body).2 hbody) with ⟨held, hheld⟩
    exact h.sound.started body held hheld
  have hnot : d.locks.started ∉ outer := fun hc => Nat.lt_irrefl _ (hlt _ (Or.inl hc))
  refine ⟨⟨?_, ?_, ?_, ?_⟩, hnot⟩
  · rw [hstart]
    exact NamedLocks.sound_start h.sound hfree
  · intro body
    rw [hstart, NamedLocks.running_start, hslots, List.mem_cons, or_assoc, ← h.running_iff]
    by_cases heq : d.locks.started = body
    · simp [heq]
    · simp [heq, show body ≠ d.locks.started from fun hc => heq hc.symm]
  · rw [hslots]
    exact h.once
  · rw [hslots]
    intro slot body hslot
    rw [List.mem_cons, not_or]
    exact ⟨Nat.ne_of_lt (hlt body (Or.inr ⟨slot, hslot⟩)), h.apart slot body hslot⟩

/-- A body that ends was the innermost. -/
theorem keeps_leave (h : d.Keeps (number :: outer)) (hnot : number ∉ outer) :
    (d.leave number).Keeps outer where
  sound := NamedLocks.sound_leave h.sound number
  running_iff := by
    intro body
    simp only [leave, NamedLocks.running_leave]
    by_cases heq : number = body
    · subst heq
      rw [if_pos rfl]
      refine iff_of_false (by simp) ?_
      rintro (hmem | ⟨slot, hslot⟩)
      · exact hnot hmem
      · exact h.apart slot number hslot List.mem_cons_self
    · rw [if_neg heq, h.running_iff, List.mem_cons]
      simp [show body ≠ number from fun hc => heq hc.symm]
  once := h.once
  apart slot body hslot hmem := h.apart slot body hslot (List.mem_cons_of_mem _ hmem)

/-- A body that stays open under a slot is not nested in anything. -/
theorem keeps_hold {slot : String} (h : d.Keeps (number :: outer)) (hnot : number ∉ outer)
    (hopen : d.slots.get? slot = none) :
    Keeps outer { d with slots := d.slots.insert slot number } where
  sound := h.sound
  running_iff := by
    intro body
    simp only [Table.get?_insert]
    rw [h.running_iff, List.mem_cons]
    constructor
    · rintro ((rfl | hmem) | ⟨other, hother⟩)
      · exact Or.inr ⟨slot, if_pos rfl⟩
      · exact Or.inl hmem
      · refine Or.inr ⟨other, ?_⟩
        rw [if_neg (fun heq => by simp [← heq, hopen] at hother), hother]
    · rintro (hmem | ⟨other, hother⟩)
      · exact Or.inl (Or.inr hmem)
      · by_cases heq : slot = other
        · rw [if_pos heq, Option.some.injEq] at hother
          exact Or.inl (Or.inl hother.symm)
        · rw [if_neg heq] at hother
          exact Or.inr ⟨other, hother⟩
  once := by
    have hnew : ∀ other, d.slots.get? other ≠ some number :=
      fun other hother => h.apart other number hother List.mem_cons_self
    intro one other body hone hother
    rw [Table.get?_insert] at hone hother
    by_cases hfirst : slot = one <;> by_cases hsecond : slot = other
    · exact hfirst.symm.trans hsecond
    · rw [if_pos hfirst, Option.some.injEq] at hone
      rw [if_neg hsecond, ← hone] at hother
      exact absurd hother (hnew other)
    · rw [if_pos hsecond, Option.some.injEq] at hother
      rw [if_neg hfirst, ← hother] at hone
      exact absurd hone (hnew one)
    · rw [if_neg hfirst] at hone
      rw [if_neg hsecond] at hother
      exact h.once one other body hone hother
  apart := by
    intro other body hother hmem
    rw [Table.get?_insert] at hother
    by_cases heq : slot = other
    · rw [if_pos heq, Option.some.injEq] at hother
      exact hnot (hother ▸ hmem)
    · rw [if_neg heq] at hother
      exact h.apart other body hother (List.mem_cons_of_mem _ hmem)

theorem keeps_closeSlot (h : d.Keeps outer) (slot : String) (answer : LockAnswer) :
    (d.closeSlot slot answer).2.Keeps outer := by
  rw [closeSlot]
  cases hslot : d.slots.get? slot with
  | none => exact h
  | some body =>
      have hold : ∀ {other number}, (d.slots.erase slot).get? other = some number →
          slot ≠ other ∧ d.slots.get? other = some number := by
        intro other number hother
        rw [Table.get?_erase] at hother
        by_cases heq : slot = other
        · simp [heq] at hother
        · rw [if_neg heq] at hother
          exact ⟨heq, hother⟩
      refine ⟨NamedLocks.sound_leave h.sound body, ?_, ?_, ?_⟩
      · intro number
        simp only [leave, NamedLocks.running_leave]
        by_cases heq : body = number
        · subst heq
          rw [if_pos rfl]
          refine iff_of_false (by simp) ?_
          rintro (hmem | ⟨other, hother⟩)
          · exact h.apart slot body hslot hmem
          · exact (hold hother).1 (h.once slot other body hslot (hold hother).2)
        · rw [if_neg heq, h.running_iff]
          refine or_congr_right (exists_congr fun other => ?_)
          rw [Table.get?_erase]
          by_cases hother : slot = other
          · subst hother
            simp [hslot, heq]
          · rw [if_neg hother]
      · intro one other number hone hother
        exact h.once one other number (hold hone).2 (hold hother).2
      · intro other number hother
        exact h.apart other number (hold hother).2

mutual

/-- A call leaves no body running but that of a slot. -/
theorem keeps_step {d : LockDesk} {outer : List Nat} (h : d.Keeps outer) (s : LockStep) :
    (d.step s).2.Keeps outer := by
  cases s with
  | count => simpa only [step] using h
  | isHeld name => simpa only [step] using h
  | malformed => simpa only [step] using h
  | close slot ending =>
      simp only [step]
      exact keeps_closeSlot h slot _
  | abort slot =>
      simp only [step]
      exact keeps_closeSlot h slot _
  | hold slot names =>
      simp only [step]
      by_cases hopen : d.slots.contains slot = true
      · simp only [hopen, if_true]
        exact h
      · simp only [hopen]
        rcases henter : d.enter names with ⟨failure | number, d'⟩
        · rcases enter_error henter with ⟨_, hlocks, hslots⟩
          exact h.of_locks_eq hlocks hslots
        · rcases keeps_enter h henter with ⟨hkeeps, hnot⟩
          refine keeps_hold hkeeps hnot ?_
          rw [(enter_ok henter).2]
          simpa [Table.contains] using hopen
  | within names body ending =>
      simp only [step]
      rcases henter : d.enter names with ⟨failure | number, d'⟩
      · rcases enter_error henter with ⟨_, hlocks, hslots⟩
        exact h.of_locks_eq hlocks hslots
      · rcases keeps_enter h henter with ⟨hkeeps, hnot⟩
        exact keeps_leave (keeps_run hkeeps body) hnot

/-- After a script only the bodies of its open slots run. -/
theorem keeps_run {d : LockDesk} {outer : List Nat} (h : d.Keeps outer)
    (script : List LockStep) : (d.run script).2.Keeps outer := by
  cases script with
  | nil => simpa only [run] using h
  | cons s rest =>
      simp only [run]
      exact keeps_run (keeps_step h s) rest

end

theorem keeps_empty : Keeps [] empty where
  sound := NamedLocks.sound_empty
  running_iff := by simp [empty, NamedLocks.empty]
  once := by simp [empty]
  apart := by simp

end LockDesk

namespace NamedLocks

variable {history : List LockEvent} {body other : Nat} {names names' : List String}

/-- A running body in the locks that the history leaves behind. -/
theorem get?_of_running (h : Running history body names) :
    (empty.after history).running.get? body = some (canonicalNames names) :=
  (running_iff history body _).2 ⟨names, h, rfl⟩

theorem isHeld_after_iff (history : List LockEvent) (name : String) :
    (empty.after history).isHeld name = true ↔
      ∃ body names, Running history body names ∧ name ∈ names := by
  rw [(sound_after sound_empty history).held_iff]
  constructor
  · rintro ⟨body, held, hheld, hname⟩
    rcases (running_iff history body held).1 hheld with ⟨names, hrunning, rfl⟩
    exact ⟨body, names, hrunning, mem_canonicalNames.1 hname⟩
  · rintro ⟨body, names, hrunning, hname⟩
    exact ⟨body, _, get?_of_running hrunning, mem_canonicalNames.2 hname⟩

theorem apart_of_running (h : Running history body names) (h' : Running history other names')
    (hne : body ≠ other) : ∀ name ∈ names, name ∉ names' := by
  intro name hname hname'
  exact (sound_after sound_empty history).apart body other _ _ (get?_of_running h)
    (get?_of_running h') hne name (mem_canonicalNames.2 hname) (mem_canonicalNames.2 hname')

/-- The number of a body that starts is not that of one that runs. -/
theorem not_running_of_enter {l : NamedLocks}
    (h : (empty.after history).enter names' = .ok (body, l)) : ¬Running history body names := by
  intro hrunning
  have hlt := (sound_after sound_empty history).started body _ (get?_of_running hrunning)
  exact absurd (enter_ok h).1 (Nat.ne_of_lt hlt)

/-- A body that ends gives back no name of another one. -/
theorem isHeld_leave_of_running (h : Running history other names) (hne : body ≠ other) :
    ∀ name ∈ names, ((empty.after history).leave body).isHeld name = true := by
  intro name hname
  have hsound := sound_leave (sound_after sound_empty history) body
  refine (hsound.held_iff name).2 ⟨other, canonicalNames names, ?_, mem_canonicalNames.2 hname⟩
  rw [running_leave, if_neg hne]
  exact get?_of_running h

/-- With no body running nothing is held. -/
theorem heldCount_eq_zero (h : ∀ body names, ¬Running history body names) :
    (empty.after history).heldCount = 0 := by
  have hempty : (empty.after history).held.entries = [] := by
    refine Table.entries_eq_nil fun name => ?_
    rw [Option.eq_none_iff_forall_not_mem]
    intro u hmem
    have hheld : (empty.after history).isHeld name = true := by
      rw [isHeld, Table.contains, hmem, Option.isSome_some]
    rcases (isHeld_after_iff history name).1 hheld with ⟨body, names, hrunning, _⟩
    exact h body names hrunning
  rw [heldCount, Table.size, hempty, List.length_nil]

/-- Held are the names of the bodies that run, and each of them is of one body. A body that
ends gives back nothing of another's, and when none runs nothing is held. A script, however
its calls are nested, is one such history, and after it the bodies of its open slots run. -/
theorem held_by_running (history : List LockEvent) (script : List LockStep) :
    let l := empty.after history
    let d := (LockDesk.empty.run script).2
    (∀ name, l.isHeld name = true ↔ ∃ body names, Running history body names ∧ name ∈ names) ∧
      (∀ body names other names', Running history body names → Running history other names' →
        body ≠ other → ∀ name ∈ names, name ∉ names') ∧
      (∀ body asked l', l.enter asked = .ok (body, l') →
        ∀ names, ¬Running history body names) ∧
      (∀ body other names, Running history other names → body ≠ other →
        ∀ name ∈ names, (l.leave body).isHeld name = true) ∧
      ((∀ body names, ¬Running history body names) → l.heldCount = 0) ∧
      d.locks = empty.after (LockDesk.empty.historyAll script) ∧
      ∀ body, (∃ names, Running (LockDesk.empty.historyAll script) body names) ↔
        ∃ slot, d.slots.get? slot = some body := by
  refine ⟨isHeld_after_iff history, fun _ _ _ _ => apart_of_running,
    fun _ _ _ h _ => not_running_of_enter h, fun _ _ _ => isHeld_leave_of_running,
    heldCount_eq_zero, LockDesk.run_locks LockDesk.empty script, fun body => ?_⟩
  have hkeeps := (LockDesk.keeps_run LockDesk.keeps_empty script).running_iff body
  rw [LockDesk.run_locks, Option.isSome_iff_exists] at hkeeps
  constructor
  · rintro ⟨names, hrunning⟩
    simpa using hkeeps.1 ⟨_, get?_of_running hrunning⟩
  · intro hslot
    rcases hkeeps.2 (Or.inr hslot) with ⟨held, hheld⟩
    rcases (running_iff _ body held).1 hheld with ⟨names, hrunning, _⟩
    exact ⟨names, hrunning⟩

-- The first body has a name twice and ends first, though it has started first. The call that
-- also asks for a name of the second gets nothing.
/-- Bodies that end in the order in which they started, and a script that closes a slot from
inside a call. -/
theorem held_by_running_overlapping :
    let history : List LockEvent :=
      [.enter ["b", "a", "b"], .enter ["c"], .enter ["d", "c"], .leave 0, .enter ["a"]]
    let script : List LockStep := [.hold "s" ["x"], .within ["y"] [.close "s" .crash] .done]
    let l := empty.after history
    Running history 1 ["c"] ∧ Running history 2 ["a"] ∧ l.isHeld "c" = true ∧
      l.isHeld "b" = false ∧ "c" ∉ ["a"] ∧ ¬Running history 3 ["e"] ∧
      (l.leave 2).isHeld "c" = true ∧
      (empty.after (history ++ [.leave 1, .leave 2])).heldCount = 0 ∧
      ¬∃ body names, Running (LockDesk.empty.historyAll script) body names := by
  intro history script l
  have hone : Running history 1 ["c"] :=
    ⟨[.enter ["b", "a", "b"]], [.enter ["d", "c"], .leave 0, .enter ["a"]], rfl, ⟨_, rfl⟩,
      by decide⟩
  have htwo : Running history 2 ["a"] :=
    ⟨[.enter ["b", "a", "b"], .enter ["c"], .enter ["d", "c"], .leave 0], [], rfl, ⟨_, rfl⟩,
      by decide⟩
  have hend : ∀ body names, ¬Running (history ++ [.leave 1, .leave 2]) body names := by
    intro body names hrunning
    have hnone : (empty.after (history ++ [.leave 1, .leave 2])).running = .empty := by decide
    have hget := get?_of_running hrunning
    simp [hnone] at hget
  rcases held_by_running history script with ⟨hheld, hapart, hfresh, hleave, _, _, hslots⟩
  have hclosed : ¬∃ body names, Running (LockDesk.empty.historyAll script) body names := by
    rintro ⟨body, hrunning⟩
    rcases (hslots body).1 hrunning with ⟨slot, hslot⟩
    have hnone : (LockDesk.empty.run script).2.slots = .empty := by decide
    simp [hnone] at hslot
  refine ⟨hone, htwo, ?_, by decide, ?_, ?_, ?_, ?_, hclosed⟩
  · exact (hheld "c").2 ⟨1, ["c"], hone, List.mem_singleton_self _⟩
  · exact hapart 1 ["c"] 2 ["a"] hone htwo (by decide) "c" (List.mem_singleton_self _)
  · exact hfresh 3 ["e"] _ rfl ["e"]
  · exact hleave 2 1 ["c"] hone (by decide) "c" (List.mem_singleton_self _)
  · exact (held_by_running _ script).2.2.2.2.1 hend

end NamedLocks

end RowLedger
