import RowLedger.Work

/-!
# Crossing transfers

Two transfers between the same two accounts in opposite directions, each of
which locks its own source first and pauses before it locks its target. If both
have their first row before either asks for its second, neither can go on, and
the store fails the one that asks last. This is the deadlock that ordered
transfers avoid, made on purpose.

The pair is a state in which each side stands where it had to stop, and the
sides can be taken up again in any order. On the clock, a side that waits for a
row is taken up when the other one has ended, and pauses end when they are due.
If both end at one instant the backward side is first.

## Main definitions

* `Work.crossing`: One side: lock, pause, lock, write.
* `Crossing`: The two sides and the store.
* `Crossing.start`, `Crossing.resume`: Run a side as far as it goes.
* `Crossing.run`: Both sides on the clock.
-/

namespace RowLedger

/-- Lock the first account, pause, lock the second, and move an amount between them. -/
def Work.crossing (first second : AccountId) (amount : Decimal) (pause : Nat) : Work Unit :=
  concluded do
    let _ ← query first
    wait pause
    let _ ← query second
    update first amount.neg
    update second amount

/-- One of the two transactions, where it had to stop. -/
structure CrossingSide where
  tx : TxId
  progress : Work.Progress Unit

inductive Direction where
  | forward
  | backward
  deriving DecidableEq

structure Crossing where
  service : Service
  forward : CrossingSide
  backward : CrossingSide

namespace CrossingSide

def hasEnded (s : CrossingSide) : Bool :=
  match s.progress with
  | .ended _ | .crashed => true
  | _ => false

def isBlocked (s : CrossingSide) : Bool :=
  match s.progress with
  | .blocked .. => true
  | _ => false

/-- How long the side pauses, if it does. -/
def pause? (s : CrossingSide) : Option Nat :=
  match s.progress with
  | .pausing millis _ => some millis
  | _ => none

/-- What the side came to. One that has not ended has not failed. -/
def outcome (s : CrossingSide) : Except Failure Unit :=
  match s.progress with
  | .ended outcome => outcome
  | _ => .ok ()

/-- A side after a run, its transaction dropped if it has ended. -/
def after (tx : TxId) (run : Work.Progress Unit × Service) : CrossingSide × Service :=
  let side : CrossingSide := ⟨tx, run.1⟩
  (side, if side.hasEnded then run.2.drop tx else run.2)

/-- Begin a transaction and run it as far as it goes. -/
def start (work : Work Unit) (s : Service) : CrossingSide × Service :=
  let (tx, s) := s.start
  after tx (work.run tx s)

/-- Take a side up again. -/
def resume (side : CrossingSide) (s : Service) : CrossingSide × Service :=
  match side.progress with
  | .blocked r next => after side.tx (Work.resume side.tx r next s)
  | .pausing _ next => after side.tx (next.run side.tx s)
  | _ => (side, s)

end CrossingSide

namespace Crossing

/-- The forward side runs until it has to stop, then the backward side does. -/
def start (a b : AccountId) (forward backward : Decimal) (pause : Nat) (s : Service) : Crossing :=
  let (f, s) := CrossingSide.start (Work.crossing a b forward pause) s
  let (g, s) := CrossingSide.start (Work.crossing b a backward pause) s
  ⟨s, f, g⟩

def side (c : Crossing) : Direction → CrossingSide
  | .forward => c.forward
  | .backward => c.backward

/-- Take one side up again. -/
def resume (c : Crossing) : Direction → Crossing
  | .forward =>
    let (forward, service) := c.forward.resume c.service
    { c with forward, service }
  | .backward =>
    let (backward, service) := c.backward.resume c.service
    { c with backward, service }

/-- The first failure, forward before backward. -/
def outcome (c : Crossing) : Except Failure Unit :=
  match c.forward.outcome with
  | .error e => .error e
  | .ok () => c.backward.outcome

/-- The failure of a side, if it failed. -/
def failure? (c : Crossing) (d : Direction) : Option Failure :=
  match (c.side d).outcome with
  | .error e => some e
  | .ok () => none

/-- Both sides on the clock, with the instants at which their pauses end. -/
structure Timed where
  crossing : Crossing
  now : Nat
  forwardDue : Nat
  backwardDue : Nat

namespace Timed

/-- Take a side up at an instant, and see when its next pause ends. -/
def resume (t : Timed) (d : Direction) (instant : Nat) : Timed :=
  let c := t.crossing.resume d
  let due := instant + ((c.side d).pause?).getD 0
  match d with
  | .forward => { t with crossing := c, now := instant, forwardDue := due }
  | .backward => { t with crossing := c, now := instant, backwardDue := due }

/-- The side that is taken up next, and when. -/
def next? (t : Timed) : Option (Direction × Nat) :=
  let f := t.crossing.forward
  let g := t.crossing.backward
  -- A side that waits goes on as soon as the other one has ended.
  if f.isBlocked && g.hasEnded then some (.forward, t.now)
  else if g.isBlocked && f.hasEnded then some (.backward, t.now)
  else
    match f.pause?, g.pause? with
    | none, none => none
    | some _, none => some (.forward, t.forwardDue)
    | none, some _ => some (.backward, t.backwardDue)
    | some _, some _ =>
      -- Of two pauses that end at once the backward one is first.
      if t.forwardDue < t.backwardDue then some (.forward, t.forwardDue)
      else some (.backward, t.backwardDue)

/-- Take up sides a number of times, or until there is none to take up. -/
def play : Nat → Timed → Timed
  | 0, t => t
  | times + 1, t =>
    match t.next? with
    | none => t
    | some (d, instant) => play times (t.resume d instant)

end Timed

/-- A side stops at its pause and at each of its two rows at most. -/
def maxStops : Nat := 6

/-- Run both sides to their ends, and tell how long that took. -/
def run (a b : AccountId) (forward backward : Decimal) (pause : Nat) (s : Service) :
    Crossing × Nat :=
  let c := start a b forward backward pause s
  let last := Timed.play maxStops
    ⟨c, 0, (c.forward.pause?).getD 0, (c.backward.pause?).getD 0⟩
  let c := last.crossing
  let told := c.service.tell
    [.crossingDone "memory" (c.failure? .forward) (c.failure? .backward)]
  ({ c with service := told }, last.now)

end Crossing

end RowLedger
