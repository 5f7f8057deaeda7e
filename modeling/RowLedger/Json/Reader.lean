import RowLedger.Json.Basic

/-!
# Reading JSON

JSON text to JSON values. A number without point and exponent that fits 64 bits
is whole; any other number is a fraction. Digits of a fraction are gathered
while they fit 64 bits, and the fraction is the gathered number scaled by its
power of ten: rounded once when it is gathered and once when it is scaled. A
fraction past the top of the range is no number.

Every reader consumes at least one character before it calls itself, so the
length of the text bounds the number of nested calls.

## Main definitions

* `Json.read?`: The value of a whole text.
-/

namespace RowLedger

namespace Json

def isBlank (c : Char) : Bool := c == ' ' || c == '\n' || c == '\r' || c == '\t'

def skipBlanks (cs : List Char) : List Char := cs.dropWhile isBlank

def fourHex? (a b c d : Char) : Option Nat := readHex? [a, b, c, d]

def unescape? : Char → Option Char
  | '"' => some '"'
  | '\\' => some '\\'
  | '/' => some '/'
  | 'b' => some '\x08'
  | 'f' => some '\x0c'
  | 'n' => some '\n'
  | 'r' => some '\r'
  | 't' => some '\t'
  | _ => none

def isLeading (n : Nat) : Bool := 0xD800 ≤ n && n < 0xDC00

def isTrailing (n : Nat) : Bool := 0xDC00 ≤ n && n < 0xE000

/-- The characters up to the closing quote, and what follows it. A half of a pair of 16-bit units
must stand with its other half. -/
def stringBody? : List Char → Option (List Char × List Char)
  | [] => none
  | '"' :: rest => some ([], rest)
  | '\\' :: 'u' :: a :: b :: c :: d :: rest =>
    match fourHex? a b c d with
    | none => none
    | some n =>
      if isLeading n then
        -- The other half has to follow at once.
        match rest with
        | '\\' :: 'u' :: a' :: b' :: c' :: d' :: rest' =>
          match fourHex? a' b' c' d' with
          | none => none
          | some n' =>
            if isTrailing n' then
              (stringBody? rest').map fun r =>
                (Char.ofNat (0x10000 + (n - 0xD800) * 0x400 + (n' - 0xDC00)) :: r.1, r.2)
            else none
        | _ => none
      else if isTrailing n then none
      else (stringBody? rest).map fun r => (Char.ofNat n :: r.1, r.2)
  | '\\' :: c :: rest =>
    match unescape? c with
    | none => none
    | some c' => (stringBody? rest).map fun r => (c' :: r.1, r.2)
  | c :: rest =>
    if c.toNat < 0x20 ∨ c = '\\' then none
    else (stringBody? rest).map fun r => (c :: r.1, r.2)

/-- A number scaled by a power of ten of at most 308, in one step; below that range in several. -/
def scaleByTen? (x : Binary64) (exponent : Int) : (steps : Nat) → Option Binary64
  | 0 => some x
  | steps + 1 =>
    if exponent.natAbs ≤ 308 then
      let power := Binary64.ofNat (10 ^ exponent.natAbs)
      if 0 ≤ exponent then
        match x.mul power with
        | .infinite _ => none
        | y => some y
      else some (x.div power)
    else if x.toBits = 0 then some x
    else if 0 ≤ exponent then none
    -- Too far for one step: come closer first.
    else scaleByTen? (x.div (Binary64.ofNat (10 ^ 308))) (exponent + 308) steps

/-- Gather whole digits while they fit; each one after that only moves the point. -/
def gatherWhole : (full : Bool) → Nat → Int → List Char → Nat × Int
  | _, n, e, [] => (n, e)
  | full, n, e, c :: rest =>
    let next := n * 10 + (c.toNat - '0'.toNat)
    if !full && next < 2 ^ 64 then gatherWhole false next e rest
    else gatherWhole true n (e + 1) rest

/-- Gather digits behind the point while they fit; the rest is given up. -/
def gatherPlaces : Nat → Int → List Char → Nat × Int
  | n, e, [] => (n, e)
  | n, e, c :: rest =>
    let next := n * 10 + (c.toNat - '0'.toNat)
    if next < 2 ^ 64 then gatherPlaces next (e - 1) rest else (n, e)

def isDigit (c : Char) : Bool := '0' ≤ c && c ≤ '9'

/-- The digits behind a point, at least one; none of them without a point. -/
def places? : List Char → Option (Option (List Char) × List Char)
  | '.' :: rest =>
    let digits := rest.takeWhile isDigit
    if digits.isEmpty then none else some (some digits, rest.dropWhile isDigit)
  | cs => some (none, cs)

/-- A power of ten with its sign; no power without a mark. -/
def power? : List Char → Option (Option Int × List Char)
  | c :: rest =>
    if c = 'e' ∨ c = 'E' then
      let (negative, rest) := match rest with
        | '-' :: r => (true, r)
        | '+' :: r => (false, r)
        | r => (false, r)
      let digits := rest.takeWhile isDigit
      (readDigits? digits).map fun n =>
        (some (if negative then -(n : Int) else n), rest.dropWhile isDigit)
    else some (none, c :: rest)
  | [] => some (none, [])

/-- A number after its sign. A zero is followed by no other whole digit. -/
def number? (negative : Bool) (cs : List Char) : Option (Json × List Char) := do
  let digits := cs.takeWhile isDigit
  if digits.isEmpty ∨ (digits.head? = some '0' ∧ digits.length ≠ 1) then none
  else
    let (places, rest) ← places? (cs.dropWhile isDigit)
    let (power, rest) ← power? rest
    let (n, e) := gatherWhole false 0 0 digits
    let isWhole := places.isNone && power.isNone && e == 0
    if isWhole && !negative then some (.whole n, rest)
    -- A zero with a sign is a fraction.
    else if isWhole && n != 0 && n ≤ 2 ^ 63 then some (.whole (-n), rest)
    else
      let (n, e) := gatherPlaces n e (places.getD [])
      let x ← scaleByTen? (Binary64.ofNat n) (e + power.getD 0) 8
      some (.fraction (if negative then x.neg else x), rest)

def literal? (word : String) (v : Json) (cs : List Char) : Option (Json × List Char) :=
  if cs.take word.length = word.toList then some (v, cs.drop word.length) else none

mutual

/-- One value at the front of the text. -/
def value? : (fuel : Nat) → List Char → Option (Json × List Char)
  | 0, _ => none
  | fuel + 1, cs =>
    match skipBlanks cs with
    | '"' :: rest => (stringBody? rest).map fun r => (.string (String.ofList r.1), r.2)
    | '[' :: rest =>
      match skipBlanks rest with
      | ']' :: rest => some (.array [], rest)
      | _ => (items? fuel rest).map fun r => (.array r.1, r.2)
    | '\x7b' :: rest =>
      match skipBlanks rest with
      | '\x7d' :: rest => some (.object [], rest)
      | _ => (members? fuel rest).map fun r => (.object r.1, r.2)
    | '-' :: rest => number? true rest
    | 't' :: rest => literal? "true" (.bool true) ('t' :: rest)
    | 'f' :: rest => literal? "false" (.bool false) ('f' :: rest)
    | 'n' :: rest => literal? "null" .null ('n' :: rest)
    | rest => number? false rest

/-- Values up to the closing bracket. -/
def items? : (fuel : Nat) → List Char → Option (List Json × List Char)
  | 0, _ => none
  | fuel + 1, cs => do
    let (v, rest) ← value? fuel cs
    match skipBlanks rest with
    | ']' :: rest => some ([v], rest)
    | ',' :: rest =>
      let (more, rest) ← items? fuel rest
      some (v :: more, rest)
    | _ => none

/-- Named values up to the closing brace. -/
def members? : (fuel : Nat) → List Char → Option (List (String × Json) × List Char)
  | 0, _ => none
  | fuel + 1, cs =>
    match skipBlanks cs with
    | '"' :: rest => do
      let (name, rest) ← stringBody? rest
      match skipBlanks rest with
      | ':' :: rest =>
        let (v, rest) ← value? fuel rest
        match skipBlanks rest with
        | '\x7d' :: rest => some ([(String.ofList name, v)], rest)
        | ',' :: rest =>
          let (more, rest) ← members? fuel rest
          some ((String.ofList name, v) :: more, rest)
        | _ => none
      | _ => none
    | _ => none

end

/-- The value of a whole text. -/
def read? (s : String) : Option Json :=
  let cs := s.toList
  match value? (cs.length + 1) cs with
  | some (v, rest) => if (skipBlanks rest).isEmpty then some v else none
  | none => none

end Json

end RowLedger
