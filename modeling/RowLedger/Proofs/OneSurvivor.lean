import RowLedger.Proofs.StandoffClock

/-!
# One victim, one survivor

Two transfers that cross, with nobody else at their rows, and with both first
rows taken before either asks for its second one. In whatever order the two go
on, the store fails exactly one of them, because it closed a cycle of waits. The
other one is woken when the first has been rolled back, gets both rows, and runs
to its commit, whether that commit then succeeds or is refused. The accounts end
as the survivor alone would have left them, and both rows are free again.

## Main definitions

* `Standoff.Vacated`: Nothing is left of the two transactions.
* `Standoff.Resolved`: How the standoff ends.

## Theorems

* `one_victim_one_survivor`: It always ends so.
* `one_victim_one_survivor_rival`: A standoff next to a transaction that is
  open.
-/

namespace RowLedger

namespace Standoff

variable {c : Standoff} {s : Store} {t : Traffic Direction} {p q : TxId}

/-- Nothing is left of two transactions, and the rows are free. -/
structure Vacated (c : Standoff) (t : Traffic Direction) (p q : TxId) : Prop where
  tasks : ∀ tx, t.tasks.get? tx = none
  ended : ∀ tx, tx = p ∨ tx = q → t.store.live.get? tx = none ∧
    t.store.locks.waits.get? tx = none ∧ ∀ row, t.store.locks.holders.get? row ≠ some tx
  rows : ∀ d, t.store.locks.holders.get? (c.row d) = none

/-- One side has been failed and rolled back, and the other one has come to its commit and has
returned. -/
structure Resolved (c : Standoff) (s : Store) (turns : List (Turn Direction))
    (survivor : Direction) (p q : TxId) (outcome : Except Failure Unit) : Prop where
  /-- The other side is rolled back and returns, once, that it has closed a cycle. -/
  failed : ∃ text, returns survivor.other ((Traffic.ofStore s).reports c.operation turns) =
      [(some q, .error (.conflict (.conflict "40P01" text)))] ∧
    ∃ before rest, turns = before ++ rest ∧ c.Concludes survivor.other
      ((Traffic.ofStore s).after c.operation before) q (.error (.conflict (.conflict "40P01" text)))
  /-- The survivor comes to its commit with both rows. -/
  committed : ∃ before rest, turns = before ++ rest ∧
    c.Concludes survivor ((Traffic.ofStore s).after c.operation before) p (.ok ())
  /-- The survivor returns, once, what its commit has come to. -/
  returned : returns survivor ((Traffic.ofStore s).reports c.operation turns) =
    [(some p, outcome)]
  spared : ∀ text, outcome ≠ .error (.conflict (.conflict "40P01" text))
  /-- Alone the survivor would have come to the same. -/
  alone : (c.alone survivor (.ofStore s)).1.progress = .ended outcome
  accounts : ((Traffic.ofStore s).after c.operation turns).store.accounts =
    (c.alone survivor (.ofStore s)).2.store.accounts
  vacated : c.Vacated ((Traffic.ofStore s).after c.operation turns) p q

/-- Two sides that have returned have left nothing behind. -/
theorem vacated_of_gone {d : Direction} {outcome outcome' : Except Failure Unit}
    (h : c.Standing t d p q (.gone outcome) (.gone outcome')) : c.Vacated t p q where
  tasks := h.no_task rfl rfl
  ended := by
    have hgone : ∀ {e tx outcome}, c.At e t tx (.gone outcome) → t.store.live.get? tx = none ∧
        t.store.locks.waits.get? tx = none ∧
        ∀ row, t.store.locks.holders.get? row ≠ some tx := fun hat =>
      ⟨hat.record, hat.mark, Store.holder_ne_of_ended h.calm.sound.consistent hat.record⟩
    rintro tx (rfl | rfl)
    · exact hgone h.mine
    · exact hgone h.theirs
  rows e := by
    refine h.free ?_ ?_
    · intro o ho
      simp [Place.record] at ho
    · intro o ho
      simp [Place.record] at ho

/-- When nobody can go on the standoff is resolved. -/
theorem resolved_of_exhausted {turns : List (Turn Direction)} (h : c.Awaits s)
    (hfaces : c.Faces s turns)
    (hexhausted : ((Traffic.ofStore s).after c.operation turns).Exhausted) :
    ∃ survivor p q outcome, c.Resolved s turns survivor p q outcome := by
  cases stage_of_faces h hfaces with
  | @stands d p q x y hstanding hphase hmine htheirs =>
      rcases returned_of_exhausted hstanding hphase hexhausted with
        ⟨rfl, rfl, haccounts, hcommitted, hrolledBack⟩
      rcases alone_eq (d := d) h.free h.there with ⟨houtcome, halone⟩
      exact ⟨d, p, q, s.outcome (c.deltas d).entries, ⟨_, htheirs, hrolledBack⟩, hcommitted,
        hmine, s.outcome_ne_deadlock _, houtcome, haccounts.trans halone.symm,
        vacated_of_gone hstanding⟩

/-- Whatever the accounts are, two transfers that cross while nobody else uses their rows, and that
both have their first rows before either asks for its second one, come to their ends in whatever
order they go on: the store fails one of them, the other one carries on to its commit, and what
there is in the end is what the survivor would have made of the accounts alone. Sides that pause
meet in this way, whichever is taken up when, and so they do on the clock. -/
theorem one_victim_one_survivor (c : Standoff) (accounts : Table AccountId Account)
    (events : List Event)
    (hthere : ∀ d, (((Store.ofAccounts accounts).after events).accounts.get? (c.row d)).isSome =
      true)
    (hspared : ∀ tx o, ((Store.ofAccounts accounts).after events).live.get? tx = some o →
      ∀ d, o.Spares (c.row d)) :
    let s := (Store.ofAccounts accounts).after events
    (∀ turns, c.Faces s turns →
      (∃ more : List TxId,
        ((Traffic.ofStore s).after c.operation (turns ++ more.map .advance)).Exhausted) ∧
      (((Traffic.ofStore s).after c.operation turns).Exhausted →
        ∃ survivor p q outcome, c.Resolved s turns survivor p q outcome)) ∧
    (c.pause ≠ 0 →
      (∀ order : List Direction, ∃ turns, c.Faces s turns ∧
        ((Traffic.ofStore s).after c.operation turns).store =
          (order.foldl Crossing.resume (Crossing.start (c.row .forward) (c.row .backward)
            (c.amount .forward) (c.amount .backward) c.pause (.ofStore s))).service.store) ∧
      ∃ turns, c.Faces s turns ∧ ((Traffic.ofStore s).after c.operation turns).Exhausted ∧
        ((Traffic.ofStore s).after c.operation turns).store =
          (Crossing.run (c.row .forward) (c.row .backward) (c.amount .forward)
            (c.amount .backward) c.pause (.ofStore s)).1.service.store) := by
  intro s
  have h : c.Awaits s :=
    ⟨Store.consistent_after (Store.consistent_ofAccounts accounts) events, hthere, hspared⟩
  refine ⟨fun turns hfaces => ⟨?_, resolved_of_exhausted h hfaces⟩, fun hpause =>
    ⟨exists_taken_up h hpause, exists_run h hpause⟩⟩
  cases stage_of_faces h hfaces with
  | stands hstanding hphase _ _ =>
      rcases exists_exhausted rfl hstanding hphase with ⟨more, hmore⟩
      refine ⟨more, ?_⟩
      rw [Traffic.after_append]
      exact hmore

/-- A transaction that has its own row under lock. -/
def rival : List Event :=
  [.insert 1 (.ofUInt64 10), .insert 2 (.ofUInt64 10), .insert 3 (.ofUInt64 10), .start,
    .call 1 (.request (.query 3))]

abbrev besideRival : Store := (Store.ofAccounts .empty).after rival

/-- Two transfers past it. -/
def pastRival : Standoff where
  row
    | .forward => 1
    | .backward => 2
  amount
    | .forward => .ofUInt64 3
    | .backward => .ofUInt64 4
  pause := 5
  distinct := by decide

/-- Both sides get their first rows. -/
def metTurns : List (Turn Direction) :=
  [.launch .forward, .advance 2, .launch .backward, .advance 3]

/-- The backward side waits, the forward side is failed and rolled back, and the transaction that
is in nobody's way ends. -/
def clashTurns : List (Turn Direction) :=
  [.advance 3, .advance 3, .advance 2, .advance 2, .event (.call 1 .rollback), .advance 2,
    .advance 2] ++ List.replicate 5 (.advance 3)

theorem one_victim_one_survivor_rival :
    (∀ d, (besideRival.accounts.get? (pastRival.row d)).isSome = true) ∧
      (∀ tx o, besideRival.live.get? tx = some o → ∀ d, o.Spares (pastRival.row d)) ∧
      pastRival.Faces besideRival (metTurns ++ clashTurns) ∧
      ((Traffic.ofStore besideRival).after pastRival.operation
        (metTurns ++ clashTurns)).Exhausted ∧
      (∃ survivor p q outcome,
        pastRival.Resolved besideRival (metTurns ++ clashTurns) survivor p q outcome) ∧
      pastRival.pause ≠ 0 ∧
      ∃ turns, pastRival.Faces besideRival turns ∧
        ((Traffic.ofStore besideRival).after pastRival.operation turns).Exhausted ∧
        ((Traffic.ofStore besideRival).after pastRival.operation turns).store =
          (Crossing.run (pastRival.row .forward) (pastRival.row .backward)
            (pastRival.amount .forward) (pastRival.amount .backward) pastRival.pause
            (.ofStore besideRival)).1.service.store := by
  have hthere : ∀ d, (besideRival.accounts.get? (pastRival.row d)).isSome = true := by
    intro d
    cases d with
    | forward => rfl
    | backward => rfl
  have hlive : besideRival.live = Table.empty.insert 1 ⟨[3], .empty, none⟩ := rfl
  have hspared : ∀ tx o, besideRival.live.get? tx = some o →
      ∀ d, o.Spares (pastRival.row d) := by
    intro tx o ho d
    rw [hlive, Table.get?_insert] at ho
    split at ho
    · cases ho
      cases d with
      | forward => exact ⟨by decide, by simp⟩
      | backward => exact ⟨by decide, by simp⟩
    · simp at ho
  have hmet : ∀ d,
      pastRival.HasFirst ((Traffic.ofStore besideRival).after pastRival.operation metTurns) d := by
    intro d
    cases d with
    | forward => exact ⟨2, _, rfl, by decide +kernel, Or.inl rfl, by decide +kernel⟩
    | backward => exact ⟨3, _, rfl, by decide +kernel, Or.inl rfl, by decide +kernel⟩
  have hallow : ∀ turn ∈ metTurns ++ clashTurns, pastRival.Allows turn := by
    intro turn hturn
    simp only [metTurns, clashTurns, List.mem_append, List.mem_cons, List.not_mem_nil, or_false,
      List.mem_replicate] at hturn
    rcases hturn with (rfl | rfl | rfl | rfl) | (rfl | rfl | rfl | rfl | rfl | rfl | rfl) |
      ⟨_, rfl⟩ <;> trivial
  have hfaces : pastRival.Faces besideRival (metTurns ++ clashTurns) :=
    ⟨hallow, by decide, metTurns, clashTurns, rfl, hmet⟩
  have hkeys : ((Traffic.ofStore besideRival).after pastRival.operation
      (metTurns ++ clashTurns)).tasks.keys = [] := by decide +kernel
  have hexhausted : ((Traffic.ofStore besideRival).after pastRival.operation
      (metTurns ++ clashTurns)).Exhausted := by
    refine exhausted_of_no_task fun tx => ?_
    rw [← Option.not_isSome_iff_eq_none, ← Table.mem_keys_iff, hkeys]
    exact List.not_mem_nil
  have hmain := one_victim_one_survivor pastRival .empty rival hthere hspared
  exact ⟨hthere, hspared, hfaces, hexhausted, (hmain.1 _ hfaces).2 hexhausted, by decide,
    (hmain.2 (by decide)).2⟩

end Standoff

end RowLedger
