import RowLedger.Binary64.Basic
import RowLedger.Decimal.Text

/-!
# Text of binary fractions

Two ways of writing a fraction in decimal digits, and the hexadecimal form of
its word. The natural text has the fewest digits that still single the
fraction out among its neighbours. The reals that round to a fraction form an
interval, from half-way to the neighbour below to half-way to the neighbour
above, and the ends belong to it when the mantissa is even. A row of `n` digits
is tried for `n = 1, 2, …`: on each grid of that precision only the two
neighbours of the value can lie in the interval, the nearer one is taken, and
of two equally near ones the upper.

The other text has a fixed number of places and is the exact value rounded
with ties to even.

## Main definitions

* `shortest`: The digits and the power of ten of the natural text.
* `plain`: The natural text without an exponent.
* `fixed`: The text with a number of places.
* `hex`, `ofHex?`: The word in sixteen hexadecimal digits.
-/

namespace RowLedger

namespace Binary64

/-- A finite positive fraction brought to 53 bits as far as the exponent allows. -/
def normal (m : Nat) (e : Int) : Nat × Int :=
  let up := min (52 - m.log2) (e - minExponent).toNat
  (m * 2 ^ up, e - up)

/-- Whether `digits * 10 ^ power` rounds to the fraction. Everything is compared at a quarter of
the last bit, so that both half-way points are whole. -/
def readsBack (m : Nat) (e : Int) (digits : Nat) (power : Int) : Bool :=
  -- Below a power of two the neighbour is half as far away.
  let narrow := m == 2 ^ 52 && minExponent < e
  let low := if narrow then 4 * m - 1 else 4 * m - 2
  let high := 4 * m + 2
  let unit := e - 2
  let value := digits * 10 ^ power.toNat * 2 ^ (-unit).toNat
  let scale := 10 ^ (-power).toNat * 2 ^ unit.toNat
  if m % 2 = 0 then decide (low * scale ≤ value ∧ value ≤ high * scale)
  else decide (low * scale < value ∧ value < high * scale)

/-- The nearer of the two neighbours on the grid of a power of ten that rounds to the fraction. -/
def onGrid? (m : Nat) (e power : Int) : Option Nat :=
  let num := m * 2 ^ e.toNat * 10 ^ (-power).toNat
  let den := 2 ^ (-e).toNat * 10 ^ power.toNat
  let below := num / den
  let lowHit := readsBack m e below power
  let highHit := readsBack m e (below + 1) power
  -- Both read back: the nearer one, or the upper one of two.
  if lowHit && highHit then some (if 2 * (num % den) < den then below else below + 1)
  else if lowHit then some below
  else if highHit then some (below + 1)
  else none

/-- The number of decimal digits before the point, or minus the zeros behind it. -/
def decimalSize (m : Nat) (e : Int) : Int :=
  let num := m * 2 ^ e.toNat
  let den := 2 ^ (-e).toNat
  if den ≤ num then (Nat.toDigits 10 (num / den)).length
  else 1 - ((Nat.toDigits 10 ((den - 1) / num)).length : Int)

/-- Try ever finer grids, at most seventeen digits of them. -/
def search (m : Nat) (e size : Int) : (tries : Nat) → Nat × Int
  | 0 => (m * 2 ^ e.toNat * 5 ^ (-e).toNat, min e 0)
  | tries + 1 =>
    let power := size - 18 + tries
    match onGrid? m e power with
    | some digits => (digits, power)
    | none => search m e size tries

/-- The fewest digits that read back, and the power of ten they are multiplied by. -/
def shortest (m : Nat) (e : Int) : Nat × Int :=
  let (m, e) := normal m e
  search m e (decimalSize m e) 18

/-- A natural number times a power of ten in positional digits. -/
def positional (digits : Nat) (power : Int) : List Char :=
  if 0 ≤ power then Nat.toDigits 10 (digits * 10 ^ power.toNat)
  else
    let places := (-power).toNat
    let cs := digitsPadded (places + 1) digits
    cs.take (cs.length - places) ++ '.' :: cs.drop (cs.length - places)

/-- Trailing zeros moved from the digits into the power. -/
def stripZeros : (fuel : Nat) → Nat → Int → Nat × Int
  | 0, digits, power => (digits, power)
  | fuel + 1, digits, power =>
    if digits ≠ 0 ∧ digits % 10 = 0 then stripZeros fuel (digits / 10) (power + 1)
    else (digits, power)

/-- The natural text, always positional. -/
def plain : Binary64 → String
  | .nan => "NaN"
  | .infinite negative => if negative then "-inf" else "inf"
  | .finite negative m e =>
    let body :=
      if m = 0 then ['0']
      else
        let (digits, power) := shortest m e
        let (digits, power) := stripZeros 400 digits power
        positional digits power
    String.ofList (if negative then '-' :: body else body)

/-- The exact value rounded to a number of places, ties to even. -/
def fixed (places : Nat) : Binary64 → String
  | .nan => "NaN"
  | .infinite negative => if negative then "-inf" else "inf"
  | .finite negative m e =>
    let n := roundHalfEven (m * 2 ^ e.toNat * 10 ^ places) (2 ^ (-e).toNat)
    let body := positional n (-(places : Int))
    String.ofList (if negative then '-' :: body else body)

/-- Sixteen lower-case hexadecimal digits. -/
def hex (x : Binary64) : String :=
  let digits := Nat.toDigits 16 x.toBits.toNat
  String.ofList (List.replicate (16 - digits.length) '0' ++ digits)

/-- The word that sixteen digits write. Capital letters are no digits here. -/
def ofHex? (s : String) : Option Binary64 :=
  let cs := s.toList
  if cs.length = 16 ∧ !cs.any Char.isUpper then
    (readHex? cs).map fun n => ofBits (UInt64.ofNat n)
  else none

end Binary64

end RowLedger
