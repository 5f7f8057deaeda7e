import RowLedger.Digits
import RowLedger.Rounding

/-!
# Decimal amounts

Money is a signed integer of at most 96 bits, read with a decimal point at
most 28 places from its right end. The scale is part of the value that is
shown: `1.50` stays `1.50`, although it is the same amount as `1.5`. Two
decimals are the same amount when they have the same number of units of
10^-28, the finest amount that any of them can hold.

Sums are exact as long as they fit. A sum that needs more than 96 bits gives
up as few trailing digits as it must, rounding half to even on the exact
value, and if no digits behind the point are left to give up there is no sum.
The zero operand is not aligned: adding zero keeps the scale of the other
side.

## Main definitions

* `Decimal`: Sign, mantissa and scale.
* `units`: The exact amount, in units of 10^-28.
* `add?`, `sub?`: The rounded sum and difference, if there is one.
* `neg`: The sign flipped, also of a zero.

## Theorems

* `add?_zero_left`, `add?_zero_right`: The zero operand disappears.
* `units_neg`: Negation negates the amount.
-/

namespace RowLedger

/-- The first mantissa that does not fit. -/
def Decimal.bound : Nat := 2 ^ 96

/-- The number of places behind the point at most. -/
def Decimal.maxScale : Nat := 28

/-- A signed amount of at most 96 bits with at most 28 places behind the point. -/
structure Decimal where
  negative : Bool
  mantissa : Nat
  scale : Nat
  mantissa_lt : mantissa < Decimal.bound
  scale_le : scale ≤ Decimal.maxScale
  deriving DecidableEq

namespace Decimal

/-- The decimal with these parts, if they are in range. -/
def ofParts? (negative : Bool) (mantissa scale : Nat) : Option Decimal :=
  if h : mantissa < bound ∧ scale ≤ maxScale then
    some ⟨negative, mantissa, scale, h.1, h.2⟩
  else none

/-- Positive zero without places. -/
def zero : Decimal := ⟨false, 0, 0, by decide, by decide⟩

instance : Inhabited Decimal := ⟨zero⟩

/-- A whole amount of at most 64 bits. -/
def ofUInt64 (n : UInt64) : Decimal :=
  ⟨false, n.toNat, 0, Nat.lt_trans n.toNat_lt (by decide), by decide⟩

/-- A whole amount of at most 64 bits with a sign. -/
def ofInt64 (n : Int64) : Decimal :=
  ⟨decide (n.toInt < 0), n.toInt.natAbs, 0, by
    have h1 := n.le_toInt
    have h2 := n.toInt_lt
    simp only [bound]
    omega, by decide⟩

def isZero (d : Decimal) : Bool := d.mantissa == 0

/-- The sign flipped, also of a zero: what is owed of nothing is written `-0`. -/
def neg (d : Decimal) : Decimal := { d with negative := !d.negative }

/-- The mantissa with its sign. -/
def signed (d : Decimal) : Int := if d.negative then -(d.mantissa : Int) else d.mantissa

/-- The signed mantissa the amount has at a scale that is not below its own. -/
def atScale (d : Decimal) (scale : Nat) : Int := d.signed * 10 ^ (scale - d.scale)

/-- The exact amount, as a number of units of 10^-28. -/
def units (d : Decimal) : Int := d.atScale maxScale

/-- The amount is below zero. A negative zero is not. -/
def isNegative (d : Decimal) : Bool := d.negative && !d.isZero

/-- The amount is above zero. -/
def isPositive (d : Decimal) : Bool := !d.negative && !d.isZero

/-- Both are the same amount, whatever their scales. -/
def sameAmount (a b : Decimal) : Bool := a.units == b.units

/-- Fit an exact magnitude into 96 bits. `dropped` digits of `exact` are already given up and
`scale` places are left. The digits are rounded once, on the exact value; only if that rounding
itself reaches the bound is one more digit rounded away. -/
def fit (negative : Bool) (exact dropped : Nat) : Nat → Option Decimal
  | 0 => ofParts? negative (roundHalfEven exact (10 ^ dropped)) 0
  | scale + 1 =>
    if exact / 10 ^ dropped < bound then
      let rounded := roundHalfEven exact (10 ^ dropped)
      if rounded < bound then ofParts? negative rounded (scale + 1)
      else ofParts? negative (roundHalfEven rounded 10) scale
    else fit negative exact (dropped + 1) scale

/-- The sum, or none if it leaves the range. -/
def add? (a b : Decimal) : Option Decimal :=
  if a.isZero then some b
  else if b.isZero then some a
  else
    let scale := max a.scale b.scale
    let sum := a.atScale scale + b.atScale scale
    fit (decide (sum < 0)) sum.natAbs 0 scale

/-- The difference, or none if it leaves the range. A zero is taken away as it stands. -/
def sub? (a b : Decimal) : Option Decimal :=
  if b.isZero then a.add? b else a.add? b.neg

theorem add?_zero_left {a b : Decimal} (h : a.isZero = true) : a.add? b = some b := by
  simp [add?, h]

theorem add?_zero_right {a b : Decimal} (ha : a.isZero = false) (hb : b.isZero = true) :
    a.add? b = some a := by
  simp [add?, ha, hb]

@[simp] theorem signed_neg (d : Decimal) : d.neg.signed = -d.signed := by
  cases h : d.negative <;> simp [signed, neg, h]

@[simp] theorem units_neg (d : Decimal) : d.neg.units = -d.units := by
  have scale : d.neg.scale = d.scale := rfl
  rw [units, units, atScale, atScale, signed_neg, scale]
  exact Int.neg_mul _ _

end Decimal

end RowLedger
