import RowLedger.Binary64.Basic
import RowLedger.Duration

/-!
# Backoff

How often a conflict is retried and how long to wait before each retry. The
wait doubles with every attempt, from a base up to a cap. Jitter then scales it
by a factor around one, so that transactions which collided once do not meet
again, and the cap holds for the jittered wait as well.

The doubling stops after 31 attempts. A wait whose double leaves the range of
durations is the cap. Where the draw of the jitter comes from is left open:
everything is said for any draw.

## Main definitions

* `Backoff`: Retries, base, cap and jitter.
* `Backoff.plain`: The wait before a retry, without jitter.
* `Backoff.scale`: A number of nanoseconds times a factor, rounded.
* `Backoff.jittered`: The wait scaled by a draw between minus one and one.
-/

namespace RowLedger

structure Backoff where
  /-- Retries after the first attempt. -/
  retries : Nat
  base : Duration
  /-- No wait is longer than this. -/
  cap : Duration
  /-- The width of the jitter as a fraction of the wait. -/
  jitter : Binary64

namespace Backoff

/-- Five retries from 10 ms up to 5 s, a quarter up or down. -/
def default : Backoff where
  retries := 5
  base := .ofMillis 10
  cap := .ofSeconds 5
  jitter := .finite false (2 ^ 52) (-54)

instance : Inhabited Backoff := ⟨default⟩

/-- The first attempt is the only one. -/
def noRetry : Backoff := { default with retries := 0 }

/-- The jitter set to a ratio between zero and one. -/
def withJitter (b : Backoff) (ratio : Binary64) : Backoff :=
  { b with jitter := ratio.clamp .zero .one }

/-- The base doubled once for every earlier attempt, and not above the cap. -/
def plain (b : Backoff) (attempt : Nat) : Duration :=
  -- More doublings than this are not made.
  match b.base.times? (2 ^ min attempt 31) with
  | some wait => wait.min b.cap
  | none => b.cap

/-- One, moved up or down by the jitter times a draw; never below zero. -/
def factor (b : Backoff) (draw : Binary64) : Binary64 :=
  (Binary64.one.add (b.jitter.mul (draw.clamp Binary64.one.neg .one))).atLeastZero

/-- Nanoseconds times a factor, to the nearest nanosecond and within 64 bits. -/
def scale (factor : Binary64) (nanos : Nat) : Nat :=
  ((Binary64.ofNat nanos).mul factor).toUInt64

/-- The wait scaled by the jitter, and not above the cap. -/
def jittered (b : Backoff) (attempt : Nat) (draw : Binary64) : Duration :=
  (Duration.ofNanos64 (UInt64.ofNat (scale (b.factor draw) (b.plain attempt).nanos))).min b.cap

end Backoff

end RowLedger
