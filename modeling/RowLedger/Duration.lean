import RowLedger.Decimal.Text

/-!
# Durations

Spans of time: whole seconds of 64 bits and a rest in nanoseconds. A span is
kept as one number of nanoseconds with its bound, so that comparing and
doubling are comparing and doubling of numbers, and the only question about
a product is whether it is still below the bound.

A span is written in the largest unit of which it has at least one, with as
many places as it needs: `1.5µs`, `20ms`, `61s`, `0ns`.

## Main definitions

* `Duration`: A number of nanoseconds below 2^64 seconds.
* `times?`: A multiple, if it is below the bound.
* `render`: The text in the largest fitting unit.
-/

namespace RowLedger

/-- The first number of nanoseconds that is no duration. -/
def Duration.bound : Nat := 2 ^ 64 * 10 ^ 9

/-- A span of time in nanoseconds. -/
structure Duration where
  nanos : Nat
  nanos_lt : nanos < Duration.bound
  deriving DecidableEq

namespace Duration

def ofNanos? (n : Nat) : Option Duration :=
  if h : n < bound then some ⟨n, h⟩ else none

def zero : Duration := ⟨0, by decide⟩

instance : Inhabited Duration := ⟨zero⟩

/-- Nanoseconds that fit 64 bits. -/
def ofNanos64 (n : UInt64) : Duration :=
  ⟨n.toNat, Nat.lt_trans n.toNat_lt (by decide)⟩

def ofMillis (n : UInt64) : Duration :=
  ⟨n.toNat * 10 ^ 6, by
    have := n.toNat_lt
    simp only [bound]
    omega⟩

def ofSeconds (n : UInt64) : Duration :=
  ⟨n.toNat * 10 ^ 9, by
    have := n.toNat_lt
    simp only [bound]
    omega⟩

/-- A multiple, if it is a duration. -/
def times? (d : Duration) (n : Nat) : Option Duration := ofNanos? (d.nanos * n)

/-- The shorter of two. -/
def min (a b : Duration) : Duration := if b.nanos < a.nanos then b else a

def toMicros (d : Duration) : Nat := d.nanos / 10 ^ 3

/-- Whole milliseconds, the last one begun counted as a whole one. -/
def ceilMillis (d : Duration) : Nat := (d.nanos + (10 ^ 6 - 1)) / 10 ^ 6

/-- A number of units and of the parts below it, each unit having `10 ^ places` parts. Zeros at
the end are not written. -/
def inUnit (places n : Nat) : List Char :=
  let whole := Nat.toDigits 10 (n / 10 ^ places)
  let parts := digitsPadded places (n % 10 ^ places)
  let kept := (parts.reverse.dropWhile (· == '0')).reverse
  if n % 10 ^ places = 0 then whole else whole ++ '.' :: kept

def render (d : Duration) : String :=
  if 10 ^ 9 ≤ d.nanos then String.ofList (inUnit 9 d.nanos) ++ "s"
  else if 10 ^ 6 ≤ d.nanos then String.ofList (inUnit 6 d.nanos) ++ "ms"
  else if 10 ^ 3 ≤ d.nanos then String.ofList (inUnit 3 d.nanos) ++ "µs"
  else String.ofList (inUnit 0 d.nanos) ++ "ns"

end Duration

end RowLedger
