import RowLedger.NamedLocks.Script

/-!
# Histories of named locks

What happens to named locks, one thing after another: a call asks for names,
and a body ends. Any list of these is a history. Bodies that run at the same
time, each in its own thread or as a future that waits, start and end in any
order there is; a body that runs inside another one starts later and, if it is
not a future that is kept, ends earlier. So an interleaving of calls, however
they are nested, is no more than the order of the list. How a body ends makes
no difference to what comes after it, so nothing is said about it here.

A call that does not get its names has no body, and the end of a body that is
not running, because it is yet to start or has ended, changes nothing.

The calls of a script are a history, too. A call that runs its body at once
asks, has the history of the body's own calls in the middle, and ends; a slot
asks when it is opened and ends when it is closed or dropped.

## Main definitions

* `LockEvent`: What can happen to named locks.
* `NamedLocks.after`: What a history leaves behind.
* `NamedLocks.Running`: A body has started and has not ended.
* `LockDesk.history`: The history of the calls of a script.

## Theorems

* `after_append`: A history can be cut in two.
-/

namespace RowLedger

inductive LockEvent where
  /-- A call asks for names, and its body starts if it gets them. -/
  | enter (names : List String)
  /-- A body ends, with a value or a failure, by a crash, or because it is dropped. -/
  | leave (body : Nat)
  deriving DecidableEq

namespace NamedLocks

/-- What an event does. -/
def step (l : NamedLocks) : LockEvent → NamedLocks
  | .enter names =>
    match l.enter names with
    | .ok (_, l) => l
    | .error _ => l
  | .leave body => l.leave body

/-- What a history leaves behind. -/
def after (l : NamedLocks) (history : List LockEvent) : NamedLocks := history.foldl step l

/-- The body with a number was started for these names and has not ended. -/
def Running (history : List LockEvent) (body : Nat) (names : List String) : Prop :=
  ∃ before later, history = before ++ .enter names :: later ∧
    (∃ l, (empty.after before).enter names = .ok (body, l)) ∧ LockEvent.leave body ∉ later

@[simp] theorem after_nil (l : NamedLocks) : l.after [] = l := rfl

@[simp] theorem after_cons (l : NamedLocks) (e : LockEvent) (rest : List LockEvent) :
    l.after (e :: rest) = (l.step e).after rest := rfl

theorem after_append (l : NamedLocks) (first second : List LockEvent) :
    l.after (first ++ second) = (l.after first).after second :=
  List.foldl_append

end NamedLocks

namespace LockDesk

mutual

/-- The history of one call. -/
def history (d : LockDesk) : LockStep → List LockEvent
  | .within names body _ =>
    match d.enter names with
    | (.error _, _) => [.enter names]
    | (.ok number, d) => .enter names :: (d.historyAll body ++ [.leave number])
  | .hold slot names => if d.slots.contains slot then [] else [.enter names]
  | .close slot _ | .abort slot => ((d.slots.get? slot).map .leave).toList
  | .count | .isHeld _ | .malformed => []

/-- The history of a list of calls. -/
def historyAll (d : LockDesk) : List LockStep → List LockEvent
  | [] => []
  | s :: rest => d.history s ++ (d.step s).2.historyAll rest

end

end LockDesk

end RowLedger
