import RowLedger.Notice
import RowLedger.Table

/-!
# Row locks

Who holds which row, and who waits for which row. A row has at most one holder
and a transaction waits for at most one row, so the waits form a graph in
which every transaction has at most one way to go on: to the holder of the row
it waits for. Following that way from the holder of a row back to the one who
asks for it is how a deadlock shows before anybody starts to wait.

The way can visit each waiting transaction once before it repeats itself, so
one step more than there are waiting transactions is far enough.

A wait is a mark and not a place in a line. It stays when the one who waited
no longer does, until its transaction takes another row, is refused one or
ends.

## Main definitions

* `RowLocks`: The holder of each row and the waits.
* `RowLocks.ahead?`: The transaction that another one waits for.
* `RowLocks.leadsTo`: A bounded walk along the waits.
* `RowLocks.wouldDeadlock`: To wait for this holder would close a cycle.
* `RowLocks.ask`: Ask for a row.
* `RowLocks.release`: Give back rows and stop waiting.

## Theorems

* `ahead?_eq_some_iff`: The way ahead is a wait for a held row.
* `holder_release`, `waits_release`: What is left after a release.
-/

namespace RowLedger

structure RowLocks where
  /-- The transaction that holds a row. -/
  holders : Table AccountId TxId
  /-- The row that a transaction waits for. -/
  waits : Table TxId AccountId
  deriving DecidableEq

/-- What comes of asking for a row. -/
inductive LockReply where
  | granted
  | waiting
  /-- Waiting for this holder would never end. -/
  | cycle (holder : TxId)
  deriving DecidableEq

namespace RowLocks

def empty : RowLocks := ⟨.empty, .empty⟩

instance : Inhabited RowLocks := ⟨empty⟩

/-- The transaction which holds the row that this one waits for. -/
def ahead? (l : RowLocks) (tx : TxId) : Option TxId :=
  match l.waits.get? tx with
  | none => none
  | some row => l.holders.get? row

/-- The target is met within a number of visits, the first of them at `tx`. -/
def leadsTo (l : RowLocks) (target : TxId) : Nat → TxId → Bool
  | 0, _ => false
  | visits + 1, tx =>
    if tx = target then true
    else
      match l.ahead? tx with
      | none => false
      | some next => leadsTo l target visits next

/-- The holder of a row waits, over any number of others, for the one who asks. -/
def wouldDeadlock (l : RowLocks) (asker holder : TxId) : Bool :=
  l.leadsTo asker (l.waits.size + 1) holder

def stopWaiting (l : RowLocks) (tx : TxId) : RowLocks := { l with waits := l.waits.erase tx }

/-- Take a row that nobody holds. -/
def take (l : RowLocks) (tx : TxId) (row : AccountId) : RowLocks where
  holders := l.holders.insert row tx
  waits := l.waits.erase tx

def startWaiting (l : RowLocks) (tx : TxId) (row : AccountId) : RowLocks :=
  { l with waits := l.waits.insert tx row }

/-- Ask for a row that the asker does not hold. -/
def ask (l : RowLocks) (tx : TxId) (row : AccountId) : LockReply × RowLocks :=
  match l.holders.get? row with
  | none => (.granted, l.take tx row)
  | some holder =>
    if l.wouldDeadlock tx holder then (.cycle holder, l.stopWaiting tx)
    else (.waiting, l.startWaiting tx row)

/-- Give one row back. A row that somebody else holds stays where it is. -/
def giveBack (l : RowLocks) (tx : TxId) (row : AccountId) : RowLocks :=
  if l.holders.get? row = some tx then { l with holders := l.holders.erase row } else l

/-- Give back the rows that a transaction has locked, and its wait. -/
def release (l : RowLocks) (tx : TxId) (rows : List AccountId) : RowLocks :=
  (rows.foldl (fun l row => l.giveBack tx row) l).stopWaiting tx

theorem ahead?_eq_some_iff (l : RowLocks) (tx next : TxId) :
    l.ahead? tx = some next ↔
      ∃ row, l.waits.get? tx = some row ∧ l.holders.get? row = some next := by
  simp only [ahead?]
  cases h : l.waits.get? tx with
  | none => simp
  | some row => simp

theorem holder_giveBack (l : RowLocks) (tx : TxId) (row other : AccountId) :
    (l.giveBack tx row).holders.get? other =
      if row = other ∧ l.holders.get? other = some tx then none else l.holders.get? other := by
  by_cases h : l.holders.get? row = some tx
  · rw [giveBack, if_pos h, Table.get?_erase]
    by_cases hr : row = other
    · rw [if_pos hr, if_pos ⟨hr, hr ▸ h⟩]
    · rw [if_neg hr, if_neg (fun hc => hr hc.1)]
  · rw [giveBack, if_neg h, if_neg]
    rintro ⟨rfl, hc⟩
    exact h hc

theorem waits_giveBack (l : RowLocks) (tx : TxId) (row : AccountId) :
    (l.giveBack tx row).waits = l.waits := by
  rw [giveBack]
  split
  · rfl
  · rfl

/-- Giving rows back one by one takes exactly those away that the transaction holds. -/
theorem holder_foldl_giveBack (tx : TxId) (other : AccountId) :
    ∀ (rows : List AccountId) (l : RowLocks),
      (rows.foldl (fun l row => l.giveBack tx row) l).holders.get? other =
        if other ∈ rows ∧ l.holders.get? other = some tx then none
        else l.holders.get? other := by
  intro rows
  induction rows with
  | nil => simp
  | cons row rest ih =>
      intro l
      rw [List.foldl_cons, ih, holder_giveBack]
      by_cases hr : row = other
      · by_cases hh : l.holders.get? other = some tx
        · simp [hr, hh]
        · simp [hr, hh]
      · have : other ≠ row := fun h => hr h.symm
        simp [hr, this]

theorem waits_foldl_giveBack (tx : TxId) :
    ∀ (rows : List AccountId) (l : RowLocks),
      (rows.foldl (fun l row => l.giveBack tx row) l).waits = l.waits := by
  intro rows
  induction rows with
  | nil => exact fun _ => rfl
  | cons row rest ih => exact fun l => (ih _).trans (waits_giveBack l tx row)

theorem holder_release (l : RowLocks) (tx : TxId) (rows : List AccountId) (row : AccountId) :
    (l.release tx rows).holders.get? row =
      if row ∈ rows ∧ l.holders.get? row = some tx then none else l.holders.get? row :=
  holder_foldl_giveBack tx row rows l

@[simp] theorem waits_release (l : RowLocks) (tx other : TxId) (rows : List AccountId) :
    (l.release tx rows).waits.get? other = if tx = other then none else l.waits.get? other := by
  rw [release, stopWaiting, waits_foldl_giveBack, Table.get?_erase]

end RowLocks

end RowLedger
