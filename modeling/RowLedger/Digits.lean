/-!
# Digits

The values of digits and of rows of digits, in base ten and in base sixteen.
Only the ASCII digits count.

## Main definitions

* `digit?`, `hexDigit?`: The value of a digit.
* `readDigits?`, `readHex?`: The number that a row of digits writes.
* `digitsPadded`: The digits of a number with zeros before them.
-/

namespace RowLedger

/-- Powers are those of the core library, also where a richer theory of powers is known. -/
@[default_instance 20000]
instance (priority := high) powCore {α : Type} [NatPow α] : Pow α Nat := instPowNat

/-- So is the zero that sums of numbers begin with. -/
instance (priority := high) zeroCore : Zero Nat := ⟨0⟩

/-- The value of an ASCII digit. -/
def digit? (c : Char) : Option Nat :=
  if '0' ≤ c ∧ c ≤ '9' then some (c.toNat - '0'.toNat) else none

/-- The value of a hexadecimal digit in either case. -/
def hexDigit? (c : Char) : Option Nat :=
  if '0' ≤ c ∧ c ≤ '9' then some (c.toNat - '0'.toNat)
  else if 'a' ≤ c ∧ c ≤ 'f' then some (c.toNat - 'a'.toNat + 10)
  else if 'A' ≤ c ∧ c ≤ 'F' then some (c.toNat - 'A'.toNat + 10)
  else none

/-- The number that a non-empty row of digits writes, in a base below seventeen. -/
def readBase? (base : Nat) (cs : List Char) : Option Nat :=
  if cs.isEmpty then none
  else
    cs.foldlM (fun n c => (hexDigit? c).bind fun d =>
      if d < base then some (n * base + d) else none) 0

/-- The number that a non-empty row of decimal digits writes. -/
def readDigits? (cs : List Char) : Option Nat := readBase? 10 cs

/-- The number that a non-empty row of hexadecimal digits writes. -/
def readHex? (cs : List Char) : Option Nat := readBase? 16 cs

/-- The decimal digits of a number, padded with zeros on the left to a least width. -/
def digitsPadded (width n : Nat) : List Char :=
  let digits := Nat.toDigits 10 n
  List.replicate (width - digits.length) '0' ++ digits

end RowLedger
