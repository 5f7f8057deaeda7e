import RowLedger.Binary64.Text

/-!
# JSON values

The values of JSON text, with whole numbers kept apart from fractions: an
account id that is written with a point or an exponent is no account id, while
an amount may be written either way.

## Main definitions

* `Json`: A JSON value; an object keeps its members in order.
* `member?`: The value of a member, the last one if there are several.
* `render`: Compact JSON text.
-/

namespace RowLedger

inductive Json where
  | null
  | bool (b : Bool)
  | whole (n : Int)
  | fraction (x : Binary64)
  | string (s : String)
  | array (items : List Json)
  | object (members : List (String × Json))

namespace Json

instance : Inhabited Json := ⟨.null⟩

/-- The last member with a name. -/
def lastMember? (name : String) : List (String × Json) → Option Json
  | [] => none
  | (k, v) :: rest =>
    match lastMember? name rest with
    | some later => some later
    | none => if k = name then some v else none

def member? (name : String) : Json → Option Json
  | .object members => lastMember? name members
  | _ => none

/-- The four hexadecimal digits of a control character. -/
def controlEscape (c : Char) : List Char :=
  let digits := Nat.toDigits 16 c.toNat
  '\\' :: 'u' :: (List.replicate (4 - digits.length) '0' ++ digits)

def escapeChar (c : Char) : List Char :=
  if c = '"' then ['\\', '"']
  else if c = '\\' then ['\\', '\\']
  else if c = '\n' then ['\\', 'n']
  else if c = '\r' then ['\\', 'r']
  else if c = '\t' then ['\\', 't']
  else if c = '\x08' then ['\\', 'b']
  else if c = '\x0c' then ['\\', 'f']
  else if c.toNat < 0x20 then controlEscape c
  else [c]

/-- A string in quotes, with quotes, backslashes and control characters escaped. -/
def quote (s : String) : String :=
  String.ofList ('"' :: s.toList.flatMap escapeChar ++ ['"'])

mutual

/-- Compact JSON text. -/
def render : Json → String
  | .null => "null"
  | .bool b => if b then "true" else "false"
  | .whole n => toString n
  | .fraction x => x.plain
  | .string s => quote s
  | .array items => "[" ++ renderItems items ++ "]"
  | .object members => "\x7b" ++ renderMembers members ++ "\x7d"

def renderItems : List Json → String
  | [] => ""
  | [v] => render v
  | v :: rest => render v ++ "," ++ renderItems rest

def renderMembers : List (String × Json) → String
  | [] => ""
  | [(k, v)] => quote k ++ ":" ++ render v
  | (k, v) :: rest => quote k ++ ":" ++ render v ++ "," ++ renderMembers rest

end

end Json

end RowLedger
