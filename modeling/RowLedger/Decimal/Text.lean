import RowLedger.Decimal.Basic
import RowLedger.Digits

/-!
# Decimal text

How an amount is written and read. It is written with all its places and at
least one digit before the point. Reading takes a sign, digits with an
optional point among them, and `_` as a separator once a digit has been seen.
Digits are taken while they fit. The first digit behind the point that does
not fit rounds the number, half up, and ends the reading there; before the
point it is an error, because the whole part cannot be shortened.

A second form has an exponent. It moves the point, and a number whose point
would leave the 28 places is refused, as is one whose whole part does not fit.

## Main definitions

* `render`: The text of a decimal.
* `read?`: A decimal from plain text.
* `readScientific?`: A decimal from text with an exponent.
* `readAny?`: The plain form first, then the exponent form.
-/

namespace RowLedger

namespace Decimal

/-- All places, and at least one digit before the point. -/
def render (d : Decimal) : String :=
  let digits := digitsPadded (d.scale + 1) d.mantissa
  let whole := digits.take (digits.length - d.scale)
  let places := digits.drop (digits.length - d.scale)
  let body := if d.scale = 0 then whole else whole ++ '.' :: places
  String.ofList (if d.negative then '-' :: body else body)

/-- What has been read so far. -/
structure Reading where
  mantissa : Nat
  scale : Nat
  pointSeen : Bool
  digitSeen : Bool

namespace Reading

/-- The number as read; a zero has no sign. -/
def finish? (negative : Bool) (r : Reading) : Option Decimal :=
  if r.digitSeen then ofParts? (negative && r.mantissa != 0) r.mantissa r.scale else none

/-- Round half up by the first digit that was not taken. A carry past the last mantissa gives up
one place. -/
def roundUp? (negative : Bool) (digit : Nat) (r : Reading) : Option Decimal :=
  if digit < 5 then finish? negative r
  else if r.mantissa + 1 < bound then finish? negative { r with mantissa := r.mantissa + 1 }
  else match r.scale with
    | 0 => none
    | s + 1 => finish? negative { r with mantissa := (r.mantissa + 5) / 10, scale := s }

/-- Read on, character by character. -/
def go (negative : Bool) (r : Reading) : List Char → Option Decimal
  | [] => finish? negative r
  | c :: rest =>
    let full := r.pointSeen && r.scale == maxScale
    match digit? c with
    | some n =>
      let next := r.mantissa * 10 + n
      -- Nothing behind this digit is looked at.
      if full then roundUp? negative n r
      else if next < bound then
        go negative ⟨next, if r.pointSeen then r.scale + 1 else 0, r.pointSeen, true⟩ rest
      -- There is no room for the digit. A whole part cannot do without it.
      else if r.pointSeen then roundUp? negative n r
      else none
    | none =>
      if full then (if c = '_' ∨ c = '.' then finish? negative r else none)
      else if c = '.' then
        (if r.pointSeen then none else go negative { r with pointSeen := true } rest)
      else if c = '_' ∧ r.digitSeen then go negative r rest
      else none

end Reading

def readChars? : List Char → Option Decimal
  | '-' :: rest => Reading.go true ⟨0, 0, false, false⟩ rest
  | '+' :: rest => Reading.go false ⟨0, 0, false, false⟩ rest
  | cs => Reading.go false ⟨0, 0, false, false⟩ cs

/-- A decimal from its plain text. -/
def read? (s : String) : Option Decimal := readChars? s.toList

/-- A 32-bit exponent, with an optional plus sign. -/
def readExponent? (cs : List Char) : Option Nat :=
  let digits := match cs with
    | '+' :: rest => rest
    | _ => cs
  (readDigits? digits).filter (· < 2 ^ 32)

/-- The point moved to the left by some places. -/
def shiftLeft? (d : Decimal) (places : Nat) : Option Decimal :=
  ofParts? d.negative d.mantissa (d.scale + places)

/-- The point moved to the right by some places. Past the last digit the number becomes whole. -/
def shiftRight? (d : Decimal) (places : Nat) : Option Decimal :=
  if places ≤ d.scale then ofParts? d.negative d.mantissa (d.scale - places)
  else if maxScale < places then none
  else ofParts? d.negative (d.mantissa * 10 ^ (places - d.scale)) 0

/-- A decimal from text with an exponent behind `e` or `E`. -/
def readScientific? (s : String) : Option Decimal :=
  let cs := s.toList
  let isMark := fun c : Char => c == 'e' || c == 'E'
  match cs.dropWhile (fun c => !isMark c) with
  | [] => none
  | _ :: exponent => do
    let base ← readChars? (cs.takeWhile (fun c => !isMark c))
    match exponent with
    | '-' :: digits =>
      let n ← readExponent? digits
      if maxScale < n then none else base.shiftLeft? n
    | digits =>
      let n ← readExponent? digits
      base.shiftRight? n

/-- A decimal from either form, the plain one first. -/
def readAny? (s : String) : Option Decimal :=
  match read? s with
  | some d => some d
  | none => readScientific? s

end Decimal

end RowLedger
