import RowLedger.Binary64.Basic
import RowLedger.Yaml.Node

/-!
# Values of YAML scalars

What a scalar means where a certain kind of value is wanted. A text may be
written in any way. Numbers and truth values have to be plain, or literal
blocks that are tagged as such, so that quotes make a text of anything. Numbers
are decimal, or have a sign for another base before their digits; a zero may
not stand before other digits of a whole number. What is wanted decides: the
same plain scalar is a number to one reader and a text to another.

## Main definitions

* `Node.text?`: A scalar as text.
* `Node.optionalText?`: A text or nothing.
* `Node.flag?`, `Node.natural?`, `Node.integer?`, `Node.fraction?`: A truth
  value, a number without and with a sign, and a fraction.
-/

namespace RowLedger.Yaml

/-- A scalar as text. -/
def Node.text? : Node → Option String
  | .scalar _ _ text _ => some text
  | _ => none

def isNullWord (text : String) : Bool := ["null", "Null", "NULL", "~"].contains text

def nullTag : String := "tag:yaml.org,2002:null"

/-- A text or nothing. Nothing is an empty plain scalar or one of the words for it; under its own
tag it has to be one of the words. -/
def Node.optionalText? : Node → Option (Option String)
  | .scalar _ tag text style =>
    if style != .plain then some (some text)
    else
      match tag with
      | some tag =>
        if tag = nullTag then (if isNullWord text then some none else none)
        else some (some text)
      | none => some (if text.isEmpty || isNullWord text then none else some text)
  | _ => none

/-- The characters of a scalar that may be a value of a kind: plain, or a literal block with the
tag of the kind. -/
def Node.bare? (kind : String) : Node → Option (List Char)
  | .scalar _ tag text style =>
    if style == .plain || (style == .literal && tag == some ("tag:yaml.org,2002:" ++ kind)) then
      some text.toList
    else none
  | _ => none

def flagOf? (text : String) : Option Bool :=
  if ["true", "True", "TRUE"].contains text then some true
  else if ["false", "False", "FALSE"].contains text then some false
  else none

def Node.flag? (node : Node) : Option Bool :=
  node.bare? "bool" >>= fun cs => flagOf? (String.ofList cs)

/-- Zero and then only digits: a text, and not a number. -/
def hasLeadingZero : List Char → Bool
  | '0' :: rest => !rest.isEmpty && rest.all Char.isDigit
  | _ => false

/-- The digits of a number without its sign, in the base that is written before them. -/
def magnitude? : List Char → Option Nat
  | '0' :: 'x' :: digits => readBase? 16 digits
  | '0' :: 'o' :: digits => readBase? 8 digits
  | '0' :: 'b' :: digits => readBase? 2 digits
  | digits => if hasLeadingZero digits then none else readDigits? digits

/-- A number that may have a plus sign. -/
def naturalOf? : List Char → Option Nat
  | '+' :: rest => magnitude? rest
  | cs => magnitude? cs

/-- A number that may have a sign. -/
def integerOf? : List Char → Option Int
  | '-' :: rest => (magnitude? rest).map fun n => -(n : Int)
  | cs => (naturalOf? cs).map fun n => (n : Int)

/-- A number below a bound. -/
def Node.natural? (bound : Nat) (node : Node) : Option Nat := do
  let n ← node.bare? "int" >>= naturalOf?
  if n < bound then pure n else none

/-- A number of 64 bits with a sign. -/
def Node.integer? (node : Node) : Option Int := do
  let n ← node.bare? "int" >>= integerOf?
  if -2 ^ 63 ≤ n ∧ n < 2 ^ 63 then pure n else none

/-- The exponent behind the digits of a fraction. -/
def exponentOf? : List Char → Option Int
  | [] => some 0
  | e :: rest =>
    if e == 'e' || e == 'E' then
      match rest with
      | '-' :: digits => (readDigits? digits).map fun n => -(n : Int)
      | '+' :: digits => (readDigits? digits).map fun n => (n : Int)
      | digits => (readDigits? digits).map fun n => (n : Int)
    else none

/-- A finite fraction without a sign: digits, with a point among them or beside them. -/
def decimalOf? (negative : Bool) (cs : List Char) : Option Binary64 := do
  let whole := cs.takeWhile Char.isDigit
  let rest := cs.dropWhile Char.isDigit
  let (places, rest) := match rest with
    | '.' :: after => (after.takeWhile Char.isDigit, after.dropWhile Char.isDigit)
    | _ => ([], rest)
  let digits ← readDigits? (whole ++ places)
  let exponent ← exponentOf? rest
  match Binary64.ofDecimal negative digits (exponent - places.length) with
  | .finite negative m e => pure (.finite negative m e)
  | _ => none

/-- A fraction, an infinity or no number at all. -/
def fractionOf? (cs : List Char) : Option Binary64 :=
  let word := String.ofList cs
  if [".nan", ".NaN", ".NAN"].contains word then some .nan
  else if [".inf", ".Inf", ".INF", "+.inf", "+.Inf", "+.INF"].contains word then
    some (.infinite false)
  else if ["-.inf", "-.Inf", "-.INF"].contains word then some (.infinite true)
  else
    match cs with
    | '+' :: rest => decimalOf? false rest
    | '-' :: rest => decimalOf? true rest
    | cs => decimalOf? false cs

def Node.fraction? (node : Node) : Option Binary64 := node.bare? "float" >>= fractionOf?

end RowLedger.Yaml
