import Mathlib.Data.List.Nodup
import RowLedger.Proofs.Tasks

/-!
# The lock table

Who holds a row is written down with the locks and again in the record of the
holder. The two are equal in all traffic, however transactions end: committed
or not, rolled back, dropped, also while a call of theirs waits, or with the
operation that they belong to. Hence the rows that are locked can be counted on
either side. In the records no row is counted twice, since a record names it
once and no two records name the same one.

## Theorems

* `lockedRows_eq`: The locked rows are those in the records.
* `lockedRows_of_ended`: Without open transactions no row is locked.
* `lock_table_agrees`: Both sides of the lock table, in all traffic.
-/

namespace RowLedger

namespace Store

variable {s : Store}

/-- A row is locked once for each record that names it. -/
theorem lockedRows_eq (h : s.Consistent) :
    s.lockedRows = (s.live.values.map fun t => t.held.length).sum := by
  have hperm : s.locks.holders.keys.Perm (s.live.values.flatMap fun t => t.held) := by
    refine (List.perm_ext_iff_of_nodup (Table.nodup_keys _) ?_).2 ?_
    · rw [Table.values, List.flatMap_map, List.nodup_flatMap]
      constructor
      · intro e he
        exact h.held_nodup e.1 e.2 ((Table.mem_entries_iff _ _ _).1 he)
      · -- No two records name one row, or they would be of one transaction.
        refine s.live.ascending.imp_of_mem ?_
        intro a b ha hb hlt row hrow hrow'
        have hsame := holder_unique h ((Table.mem_entries_iff _ _ _).1 ha)
          ((Table.mem_entries_iff _ _ _).1 hb) hrow hrow'
        exact Nat.ne_of_lt hlt hsame
    · intro row
      rw [Table.mem_keys_iff, Option.isSome_iff_exists, Table.values, List.flatMap_map,
        List.mem_flatMap]
      constructor
      · rintro ⟨tx, hholder⟩
        rcases (h.holder_iff row tx).1 hholder with ⟨t, hlive, hmem⟩
        exact ⟨(tx, t), (Table.mem_entries_iff _ _ _).2 hlive, hmem⟩
      · rintro ⟨e, he, hmem⟩
        exact ⟨e.1, (h.holder_iff row e.1).2 ⟨e.2, (Table.mem_entries_iff _ _ _).1 he, hmem⟩⟩
  calc s.lockedRows = s.locks.holders.keys.length := (List.length_map _).symm
    _ = (s.live.values.flatMap fun t => t.held).length := hperm.length_eq
    _ = (s.live.values.map fun t => t.held.length).sum := List.length_flatMap

/-- Without open transactions no row is locked. -/
theorem lockedRows_of_ended (h : s.Consistent) (hended : ∀ tx, s.isOpen tx = false) :
    s.lockedRows = 0 := by
  have hnone : s.live.entries = [] := Table.entries_eq_nil fun tx =>
    Option.not_isSome_iff_eq_none.1 (Bool.not_eq_true _ ▸ hended tx)
  rw [lockedRows_eq h, Table.values, hnone]
  rfl

end Store

namespace Traffic

variable {ι : Type}

/-- In all traffic the locks name the holder of a row exactly if that transaction is open and has
the row in its record, which names no row twice and every row that it has a delta for. Whoever has
a wait in the graph is open and does not hold the row. Rows that are held or waited for exist. So
the rows that are locked are as many as the open transactions have in their records. -/
theorem lock_table_agrees (program : ι → Operation) (accounts : Table AccountId Account)
    (turns : List (Turn ι)) :
    let s := ((ofStore (.ofAccounts accounts)).after program turns).store
    (∀ row tx, s.locks.holders.get? row = some tx ↔
        ∃ t, s.live.get? tx = some t ∧ row ∈ t.held) ∧
      (∀ tx t, s.live.get? tx = some t → t.held.Nodup ∧
        ∀ row, (t.pending.get? row).isSome = true → row ∈ t.held) ∧
      (∀ tx row, s.locks.waits.get? tx = some row →
        ∃ t, s.live.get? tx = some t ∧ row ∉ t.held) ∧
      (∀ row tx, s.locks.holders.get? row = some tx ∨ s.locks.waits.get? tx = some row →
        (s.accounts.get? row).isSome = true) ∧
      s.lockedRows = (s.live.values.map fun t => t.held.length).sum ∧
      ((∀ tx, s.isOpen tx = false) → s.lockedRows = 0) := by
  intro s
  have hsound : ((ofStore (.ofAccounts accounts)).after program turns).Sound :=
    sound_after (sound_ofStore (Store.consistent_ofAccounts accounts)) turns
  have h : s.Consistent := hsound.consistent
  refine ⟨h.holder_iff, ?_, h.wait_open, ?_, Store.lockedRows_eq h,
    fun hended => Store.lockedRows_of_ended h hended⟩
  · exact fun tx t hlive => ⟨h.held_nodup tx t hlive, fun row => h.pending_held tx t row hlive⟩
  · rintro row tx (hheld | hwait)
    · exact h.held_exists row tx hheld
    · exact h.wait_exists tx row hwait

/-- Two transactions that were opened by hand hold one account each. The first one and a transfer
wait. -/
def crowd : List (Turn OrderedCall) :=
  [.event (.insert 1 (.ofUInt64 10)), .event (.insert 2 .zero), .event .start, .event .start,
    .event (.call 1 (.request (.update 1 (.ofUInt64 5)))),
    .event (.call 2 (.request (.query 2))), .event (.call 1 (.request (.query 2))),
    .launch (.transfer ⟨1, 2, .ofUInt64 3⟩), .advance 3]

/-- One ends in a conflict, one is cut off while it waits, and one is dropped. -/
def dispersed : List (Turn OrderedCall) :=
  [.event (.inject 1), .event (.call 2 .commit), .cut 3, .event (.poll 1), .event (.drop 1)]

theorem lock_table_agrees_crowd :
    let s := ((ofStore (.ofAccounts .empty)).after OrderedCall.operation crowd).store
    let s' := ((ofStore (.ofAccounts .empty)).after OrderedCall.operation
      (crowd ++ dispersed)).store
    (s.locks.waits.get? 3 = some 1 ∧ ∃ t, s.live.get? 3 = some t ∧ 1 ∉ t.held) ∧
      (s.locks.holders.get? 1 = some 1 ∧ (s.accounts.get? 1).isSome = true) ∧
      (∃ t, s.live.get? 1 = some t ∧ t.held.Nodup ∧
        (t.pending.get? 1).isSome = true ∧ 1 ∈ t.held) ∧
      s.lockedRows = 2 ∧ s'.lockedRows = 0 := by
  intro s s'
  have hwait : s.locks.waits.get? 3 = some 1 := by decide +kernel
  have hheld : s.locks.holders.get? 1 = some 1 := by decide +kernel
  have hpending : ((s.live.get? 1).bind fun t => t.pending.get? 1).isSome = true := by
    decide +kernel
  have hlive' : s'.live = .empty := by decide +kernel
  rcases lock_table_agrees OrderedCall.operation .empty crowd with
    ⟨hholder, hrecord, hopen, hexists, hcount, _⟩
  rcases (hholder 1 1).1 hheld with ⟨t, hlive, hmem⟩
  rw [hlive, Option.bind_some] at hpending
  refine ⟨⟨hwait, hopen 3 1 hwait⟩, ⟨hheld, hexists 1 1 (Or.inl hheld)⟩,
    ⟨t, hlive, (hrecord 1 t hlive).1, hpending, (hrecord 1 t hlive).2 1 hpending⟩,
    hcount.trans (by decide +kernel),
    (lock_table_agrees OrderedCall.operation .empty (crowd ++ dispersed)).2.2.2.2.2 ?_⟩
  intro tx
  change s'.isOpen tx = false
  rw [Store.isOpen, hlive']
  rfl

end Traffic

end RowLedger
