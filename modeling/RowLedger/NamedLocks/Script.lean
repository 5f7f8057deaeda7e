import RowLedger.NamedLocks.Basic
import RowLedger.Notice

/-!
# Scripts over named locks

A caller's view of named locks: bodies that run inside a call and may make
calls of their own, and bodies that stay open under the name of a slot until
they are closed or dropped. However a body ends, with a value, a failure or a
crash, its names are given back.

## Main definitions

* `LockStep`: One call.
* `LockAnswer`: What the call answers, with the answers of its body.
* `LockDesk`: The locks, the open slots and the notices.
* `LockDesk.run`: The answers to a list of calls.
-/

namespace RowLedger

/-- How a body ends. -/
inductive BodyEnd where
  | done
  | crash
  | fail (failure : Failure)

inductive LockStep where
  | count
  | isHeld (name : String)
  | within (names : List String) (body : List LockStep) (ending : BodyEnd)
  | hold (slot : String) (names : List String)
  | close (slot : String) (ending : BodyEnd)
  | abort (slot : String)
  | malformed

instance : Inhabited LockStep := ⟨.malformed⟩

inductive LockAnswer where
  | count (n : Nat)
  | isHeld (b : Bool)
  | refused (failure : Failure)
  | ended (ending : BodyEnd)
  | ran (ending : BodyEnd) (body : List (LockAnswer × Nat))
  | notRun (failure : Failure)
  | holding
  | aborted
  | badStep

structure LockDesk where
  locks : NamedLocks
  /-- The open bodies, by slot. -/
  slots : Table String Nat
  notices : List Notice

namespace LockDesk

def empty : LockDesk := ⟨.empty, .empty, []⟩

/-- Start a body, or tell the busy name and note it. -/
def enter (d : LockDesk) (names : List String) : Except Failure Nat × LockDesk :=
  match d.locks.enter names with
  | .error name =>
    (.error (.alreadyLocked name),
      { d with notices := d.notices ++ [.resourceBusy name (canonicalNames names).length] })
  | .ok (body, locks) => (.ok body, { d with locks })

def leave (d : LockDesk) (body : Nat) : LockDesk := { d with locks := d.locks.leave body }

/-- End the body of a slot. -/
def closeSlot (d : LockDesk) (slot : String) (answer : LockAnswer) : LockAnswer × LockDesk :=
  match d.slots.get? slot with
  | none => (.badStep, d)
  | some body => (answer, { d.leave body with slots := d.slots.erase slot })

mutual

/-- One call. -/
def step (d : LockDesk) : LockStep → LockAnswer × LockDesk
  | .count => (.count d.locks.heldCount, d)
  | .isHeld name => (.isHeld (d.locks.isHeld name), d)
  | .within names body ending =>
    match d.enter names with
    | (.error failure, d) => (.notRun failure, d)
    | (.ok number, d) =>
      -- However the body ends, its names are given back after it.
      let (answers, d) := run d body
      (.ran ending answers, d.leave number)
  | .hold slot names =>
    if d.slots.contains slot then (.badStep, d)
    else
      match d.enter names with
      | (.error failure, d) => (.refused failure, d)
      | (.ok number, d) => (.holding, { d with slots := d.slots.insert slot number })
  | .close slot ending => d.closeSlot slot (.ended ending)
  | .abort slot => d.closeSlot slot .aborted
  | .malformed => (.badStep, d)

/-- Each answer with the number of names held after it. -/
def run (d : LockDesk) : List LockStep → List (LockAnswer × Nat) × LockDesk
  | [] => ([], d)
  | s :: rest =>
    let (answer, d) := step d s
    let held := d.locks.heldCount
    let (answers, d) := run d rest
    ((answer, held) :: answers, d)

end

end LockDesk

end RowLedger
