import RowLedger.Yaml.Cursor
import RowLedger.Yaml.Scalar

/-!
# Names, tags and directives of a YAML text

The parts of a text that say something about a node or a document. An anchor
or an alias is a name. A tag is a handle and a suffix, and a handle stands for
the beginning of a tag; a tag between angle brackets has no handle, and a lone
exclamation mark is a tag of its own. A directive gives the version of the
format or the meaning of a handle.

## Main definitions

* `name?`: The name of an anchor or an alias.
* `tag?`: The handle and the suffix of a tag.
* `directive?`: A version or a meaning of a handle.
-/

namespace RowLedger.Yaml

/-- The name behind the indicator of an anchor or an alias. -/
def name? (c : Cursor) : Option (String × Cursor) :=
  let (name, c) := (c.skip 1).takeWhile isNameChar
  if !name.isEmpty && (c.gapAt 0 || c.seesAny 0 ("?:,]\x7d%@\x60".toList.contains ·)) then
    some (String.ofList name, c)
  else none

/-- A handle: two exclamation marks with a name or nothing between them. Without the second mark
it is the beginning of a suffix. -/
def handle? (c : Cursor) : Option (List Char × Cursor) :=
  if c.sees 0 '!' then
    let (name, c) := (c.skip 1).takeWhile isNameChar
    if c.sees 0 '!' then some ('!' :: name ++ ['!'], c.skip 1) else some ('!' :: name, c)
  else none

/-- Characters of a tag that need no escape. -/
def isTagChar (verbatim : Bool) (c : Char) : Bool :=
  isNameChar c || ";/?:@&=+$.!~*'()".toList.contains c || (verbatim && ",[]".toList.contains c)

/-- The value of an octet that is written as a percent sign and two digits. -/
def octet? (c : Cursor) : Option Nat :=
  match c.rest with
  | '%' :: a :: b :: _ => readHex? [a, b]
  | _ => none

/-- How many octets a character takes whose first octet is given. -/
def octetCount? (first : Nat) : Option Nat :=
  if first < 0x80 then some 1
  else if first / 0x20 = 6 then some 2
  else if first / 0x10 = 14 then some 3
  else if first / 0x08 = 30 then some 4
  else none

/-- A character whose octets are escaped. -/
def escapedChar? (c : Cursor) : Option (Char × Cursor) := do
  let first ← octet? c
  let count ← octetCount? first
  let others ← (List.range (count - 1)).mapM fun i => octet? (c.skip (3 * (i + 1)))
  if others.all (· / 0x40 = 2) then
    let high := if count = 1 then first else first % 2 ^ (7 - count)
    let number := others.foldl (fun n o => 64 * n + o % 64) high
    pure ((charOf? number).getD '\ufffd', c.skip (3 * count))
  else none

/-- The suffix of a tag. -/
def suffix? (verbatim : Bool) : Nat → List Char → Cursor → Option (List Char × Cursor)
  | 0, text, c => some (text, c)
  | n + 1, text, c =>
    if c.sees 0 '%' then
      match escapedChar? c with
      | none => none
      | some (char, c) => suffix? verbatim n (text ++ [char]) c
    else if c.seesAny 0 (isTagChar verbatim) then
      suffix? verbatim n (text ++ c.rest.take 1) (c.skip 1)
    else some (text, c)

/-- A suffix that is not empty. -/
def someSuffix? (verbatim : Bool) (c : Cursor) : Option (List Char × Cursor) := do
  let (text, c) ← suffix? verbatim (c.rest.length + 1) [] c
  if text.isEmpty then none else pure (text, c)

/-- The handle and the suffix of a tag, up to its last character. -/
def tagParts? (c : Cursor) : Option (String × String × Cursor) := do
  if c.sees 1 '<' then
    let (text, c) ← someSuffix? true (c.skip 2)
    if c.sees 0 '>' then pure ("", String.ofList text, c.skip 1) else none
  else
    let (handle, c) ← handle? c
    if 2 ≤ handle.length && handle.getLast? == some '!' then
      let (text, c) ← someSuffix? false c
      pure (String.ofList handle, String.ofList text, c)
    else
      -- What looked like a handle is the beginning of the suffix.
      let (text, c) ← suffix? false (c.rest.length + 1) (handle.drop 1) c
      pure (if text.isEmpty then ("", "!", c) else ("!", String.ofList text, c))

/-- A tag is followed by a gap, or between brackets by a comma. -/
def tag? (inFlow : Bool) (c : Cursor) : Option (String × String × Cursor) := do
  let (handle, suffix, c) ← tagParts? c
  if c.gapAt 0 || (inFlow && c.sees 0 ',') then pure (handle, suffix, c) else none

/-- A number of at most nine digits. -/
def versionNumber? (c : Cursor) : Option (Nat × Cursor) :=
  let (digits, c) := c.takeWhile Char.isDigit
  if digits.isEmpty || 9 < digits.length then none
  else some (digits.foldl (fun n d => 10 * n + (d.toNat - '0'.toNat)) 0, c)

/-- A directive, and the rest of its line. -/
def directive? (c : Cursor) : Option (Token × Cursor) := do
  let (name, c) := (c.skip 1).takeWhile isNameChar
  if c.gapAt 0 then
    let c := c.skipWhile isBlank
    let (token, c) ← match String.ofList name with
      | "YAML" => do
        let (major, c) ← versionNumber? c
        if c.sees 0 '.' then
          let (minor, c) ← versionNumber? (c.skip 1)
          pure (Token.version major minor, c)
        else none
      | "TAG" => do
        let (handle, c) ← handle? c
        if (handle.length = 1 || handle.getLast? == some '!') && c.seesAny 0 isBlank then
          let (text, c) ← someSuffix? true (c.skipWhile isBlank)
          if c.gapAt 0 then
            pure (Token.tagPrefix (String.ofList handle) (String.ofList text), c)
          else none
        else none
      | _ => none
    let c ← c.skipLine?
    pure (token, c)
  else none

end RowLedger.Yaml
