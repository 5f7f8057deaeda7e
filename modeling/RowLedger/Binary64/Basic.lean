import RowLedger.Digits
import RowLedger.Rounding

/-!
# Binary fractions

The 64-bit binary fractions that ratios and jitter are made of, in exact
integer arithmetic. A finite one is a sign, a mantissa and a power of two, and
every operation computes the exact result first and rounds it once. So there
is one rounding, `ofQuotient`: all of addition, multiplication, division and
conversion go through it, and what holds of it holds of them.

`ofQuotient` finds the power of two that leaves 53 bits of the quotient, or
fewer at the bottom of the range, and rounds to that many with ties to even. A
result past the top of the range is infinite.

## Main definitions

* `Binary64`: Not a number, an infinity, or a finite fraction.
* `ofBits`, `toBits`: The 64-bit word of a fraction.
* `ofQuotient`: The fraction nearest to a quotient of naturals.
* `add`, `mul`, `div`: Exact, then rounded.
* `clamp`: Into an interval; what is no number stays.
* `toUInt64`: The nearest whole number, halves away from zero, kept in range.
-/

namespace RowLedger

/-- A 64-bit binary fraction. The finite ones are `mantissa * 2 ^ exponent` with a sign. -/
inductive Binary64 where
  | nan
  | infinite (negative : Bool)
  | finite (negative : Bool) (mantissa : Nat) (exponent : Int)
  deriving DecidableEq

namespace Binary64

/-- The exponent of the smallest fractions. -/
def minExponent : Int := -1074

/-- The exponent of the largest fractions. -/
def maxExponent : Int := 971

def zero : Binary64 := .finite false 0 minExponent

def one : Binary64 := .finite false (2 ^ 52) (-52)

instance : Inhabited Binary64 := ⟨zero⟩

/-- The fraction a 64-bit word stands for. -/
def ofBits (bits : UInt64) : Binary64 :=
  let word := bits.toNat
  let negative := decide (2 ^ 63 ≤ word)
  let exponent : Nat := word / 2 ^ 52 % 2 ^ 11
  let fraction := word % 2 ^ 52
  if exponent = 2047 then (if fraction = 0 then .infinite negative else .nan)
  else if exponent = 0 then .finite negative fraction minExponent
  else .finite negative (2 ^ 52 + fraction) ((exponent : Int) - 1075)

/-- The word of a fraction. A mantissa is first brought to 53 bits, as far as the exponent
allows. -/
def toBits : Binary64 → UInt64
  | .nan => 0x7ff8000000000000
  | .infinite negative => UInt64.ofNat ((if negative then 2 ^ 63 else 0) + 2047 * 2 ^ 52)
  | .finite negative mantissa exponent =>
    let sign := if negative then 2 ^ 63 else 0
    if mantissa = 0 then UInt64.ofNat sign
    else
      let up := min (52 - mantissa.log2) (exponent - minExponent).toNat
      let down := mantissa.log2 - 52
      let m := mantissa * 2 ^ up / 2 ^ down
      let e := exponent - up + down
      if m < 2 ^ 52 then UInt64.ofNat (sign + m)
      else UInt64.ofNat (sign + (e + 1075).toNat * 2 ^ 52 + (m - 2 ^ 52))

/-- The power of two that is not above a positive quotient while its double is. -/
def log2Quotient (num den : Nat) : Int :=
  let guess : Int := (num.log2 : Int) - den.log2
  if num * 2 ^ (-guess).toNat < den * 2 ^ guess.toNat then guess - 1 else guess

/-- The fraction nearest to `num / den`, ties to even. -/
def ofQuotient (negative : Bool) (num den : Nat) : Binary64 :=
  if num = 0 ∨ den = 0 then .finite negative 0 minExponent
  else
    -- The exponent that leaves 53 bits, but none below the least.
    let e := max (log2Quotient num den - 52) minExponent
    let m := roundHalfEven (num * 2 ^ (-e).toNat) (den * 2 ^ e.toNat)
    -- Rounding up may leave the range.
    if maxExponent < e ∨ (e = maxExponent ∧ 2 ^ 53 ≤ m) then .infinite negative
    else .finite negative m e

def ofNat (n : Nat) : Binary64 := ofQuotient false n 1

def ofInt (n : Int) : Binary64 := ofQuotient (decide (n < 0)) n.natAbs 1

/-- The fraction nearest to `digits * 10 ^ exponent`. Powers far outside of the range are answered
without being computed. -/
def ofDecimal (negative : Bool) (digits : Nat) (exponent : Int) : Binary64 :=
  let size : Int := (Nat.toDigits 10 digits).length
  if digits = 0 ∨ size + exponent < -400 then .finite negative 0 minExponent
  else if 400 < size + exponent then .infinite negative
  else ofQuotient negative (digits * 10 ^ exponent.toNat) (10 ^ (-exponent).toNat)

def isNegative : Binary64 → Bool
  | .nan => false
  | .infinite negative => negative
  | .finite negative _ _ => negative

/-- A zero of either sign. -/
def isZero : Binary64 → Bool
  | .finite _ m _ => m == 0
  | _ => false

/-- The sign flipped. -/
def neg : Binary64 → Binary64
  | .nan => .nan
  | .infinite negative => .infinite (!negative)
  | .finite negative m e => .finite (!negative) m e

def mul : Binary64 → Binary64 → Binary64
  | .nan, _ => .nan
  | _, .nan => .nan
  | .infinite a, .infinite b => .infinite (a != b)
  | .infinite a, .finite b m _ => if m = 0 then .nan else .infinite (a != b)
  | .finite a m _, .infinite b => if m = 0 then .nan else .infinite (a != b)
  | .finite a m e, .finite b m' e' =>
    ofQuotient (a != b) (m * m' * 2 ^ (e + e').toNat) (2 ^ (-(e + e')).toNat)

def div : Binary64 → Binary64 → Binary64
  | .nan, _ => .nan
  | _, .nan => .nan
  | .infinite _, .infinite _ => .nan
  | .infinite a, .finite b _ _ => .infinite (a != b)
  | .finite a _ _, .infinite b => .finite (a != b) 0 minExponent
  | .finite a m e, .finite b m' e' =>
    if m' = 0 then (if m = 0 then .nan else .infinite (a != b))
    else ofQuotient (a != b) (m * 2 ^ (e - e').toNat) (m' * 2 ^ (e' - e).toNat)

/-- The signed mantissa of a finite fraction at a lower exponent. -/
def aligned (negative : Bool) (m : Nat) (e low : Int) : Int :=
  let n : Int := m * 2 ^ (e - low).toNat
  if negative then -n else n

def add : Binary64 → Binary64 → Binary64
  | .nan, _ => .nan
  | _, .nan => .nan
  | .infinite a, .infinite b => if a = b then .infinite a else .nan
  | .infinite a, .finite .. => .infinite a
  | .finite .., .infinite b => .infinite b
  | .finite a m e, .finite b m' e' =>
    let low := min e e'
    let sum := aligned a m e low + aligned b m' e' low
    if sum = 0 then .finite (a && b) 0 minExponent
    else ofQuotient (decide (sum < 0)) (sum.natAbs * 2 ^ low.toNat) (2 ^ (-low).toNat)

/-- Strictly below. Nothing is below or above what is no number. -/
def lt : Binary64 → Binary64 → Bool
  | .nan, _ => false
  | _, .nan => false
  | .infinite a, .infinite b => a && !b
  | .infinite a, .finite .. => a
  | .finite .., .infinite b => !b
  | .finite a m e, .finite b m' e' =>
    let low := min e e'
    decide (aligned a m e low < aligned b m' e' low)

/-- Into the interval from `low` to `high`. What is no number stays, and so does a negative zero
at an end that is zero. -/
def clamp (x low high : Binary64) : Binary64 :=
  if x.lt low then low else if high.lt x then high else x

/-- At least zero. What is no number counts as zero. -/
def atLeastZero (x : Binary64) : Binary64 :=
  if zero.lt x then x else zero

/-- The nearest whole number, halves away from zero, kept within 64 bits. What is no number
becomes zero. -/
def toUInt64 : Binary64 → Nat
  | .nan => 0
  | .infinite negative => if negative then 0 else 2 ^ 64 - 1
  | .finite negative m e =>
    if negative then 0
    else
      let den := 2 ^ (-e).toNat
      min ((2 * (m * 2 ^ e.toNat) + den) / (2 * den)) (2 ^ 64 - 1)

end Binary64

end RowLedger
