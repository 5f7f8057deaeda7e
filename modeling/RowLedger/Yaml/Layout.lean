import RowLedger.Yaml.Tag

/-!
# Layout of a YAML text

The tokens of a text with its blocks made visible. Outside of brackets a block
opens where a line is indented more than the block around it and closes where
a line is indented less. A mapping opens before its first key, and that this
was a key is only known at the colon behind it: so the place of whatever may be
a key is remembered, and the tokens for the mapping and the key are put there
afterwards. What may be a key fits one line and at most 1024 characters, and
what must be one, because nothing else may stand at its column, has to prove to
be one.

## Main definitions

* `KeyPlace`: Where something that may be a key starts.
* `Layout`: The state of reading tokens.
* `Layout.step?`: Read one token, or see the end.
* `tokens?`: The tokens of a text.
-/

namespace RowLedger.Yaml

/-- Where something starts that may turn out a key. -/
structure KeyPlace where
  /-- Nothing else may stand here. -/
  required : Bool
  /-- The number of tokens before it. -/
  before : Nat
  start : Cursor

structure Layout where
  cursor : Cursor
  /-- Newest first. -/
  tokens : List Token
  /-- The column of the block, or -1 outside of all blocks. -/
  indent : Int
  /-- The columns of the blocks around it, innermost first. -/
  outer : List Int
  /-- A key may start here. -/
  keyAllowed : Bool
  /-- What may be the last key, for each open bracket and for the text around, innermost first. -/
  keys : List (Option KeyPlace)
  ended : Bool

namespace Layout

def start (text : List Char) : Layout where
  cursor := .ofText text
  tokens := []
  indent := -1
  outer := []
  keyAllowed := true
  keys := [none]
  ended := false

def inFlow (l : Layout) : Bool := 1 < l.keys.length

def column (l : Layout) : Int := l.cursor.column

def emit (l : Layout) (t : Token) : Layout := { l with tokens := t :: l.tokens }

def emitAt (l : Layout) (place : Nat) (t : Token) : Layout :=
  { l with tokens := (l.tokens.reverse.insertIdx place t).reverse }

def moved (l : Layout) (c : Cursor) : Layout := { l with cursor := c }

def skip (l : Layout) (count : Nat) : Layout := l.moved (l.cursor.skip count)

def allowKey (l : Layout) (b : Bool) : Layout := { l with keyAllowed := b }

/-- Drop a place at which no key can come any more. It is an error if there had to be one. -/
def dropKey? : Option KeyPlace → Option (Option KeyPlace)
  | some k => if k.required then none else some none
  | none => some none

/-- Drop the places that are too far back. -/
def dropStaleKeys? (l : Layout) : Option Layout := do
  let keys ← l.keys.mapM fun key =>
    match key with
    | some k =>
      if k.start.line < l.cursor.line || k.start.index + 1024 < l.cursor.index then
        dropKey? key
      else some key
    | none => some none
  pure { l with keys }

/-- Drop the innermost place. -/
def removeKey? (l : Layout) : Option Layout :=
  match l.keys with
  | [] => some l
  | key :: others => (dropKey? key).map fun key => { l with keys := key :: others }

/-- Remember this place, if a key may start here. -/
def saveKey? (l : Layout) : Option Layout :=
  if l.keyAllowed then do
    -- At the column of its block nothing but a key can start.
    let required := !l.inFlow && l.indent == l.column
    let l ← l.removeKey?
    pure { l with keys := some ⟨required, l.tokens.length, l.cursor⟩ :: l.keys.drop 1 }
  else some l

/-- Open a block at a column, unless it is open already. -/
def openBlock (l : Layout) (column : Int) (place : Nat) (t : Token) : Layout :=
  if !l.inFlow && l.indent < column then
    { l with indent := column, outer := l.indent :: l.outer }.emitAt place t
  else l

/-- Close the blocks that are indented more than a column. -/
def closeBlocks (l : Layout) (column : Int) : Layout :=
  if l.inFlow then l
  else
    let open_ := l.indent :: l.outer
    let closed := (open_.takeWhile (column < ·)).length
    match open_.drop closed with
    | [] => l
    | indent :: outer =>
      { l with indent, outer, tokens := List.replicate closed .blockEnd ++ l.tokens }

/-- Blanks, comments and breaks before a token. A tab is a blank only where no key may start. -/
def skipToToken : Nat → Layout → Layout
  | 0, l => l
  | n + 1, l =>
    let c := l.cursor
    let c := if c.column = 0 && c.seesAny 0 isByteOrderMark then c.skip 1 else c
    let tabs := l.inFlow || !l.keyAllowed
    let c := (c.skipWhile fun char => char == ' ' || (tabs && char == '\t')).skipComment
    if c.seesAny 0 isBreak then
      -- A new line of a block may start with a key.
      skipToToken n { l with cursor := c.skipBreak.2, keyAllowed := !l.inFlow || l.keyAllowed }
    else l.moved c

/-- The end of the text closes everything. -/
def finish? (l : Layout) : Option Layout := do
  let l ← (l.closeBlocks (-1)).removeKey?
  pure { l with ended := true }

def directive? (l : Layout) : Option Layout := do
  let l ← (l.closeBlocks (-1)).removeKey?
  let (token, c) ← Yaml.directive? l.cursor
  pure (((l.allowKey false).moved c).emit token)

/-- A marker between documents. -/
def marker? (l : Layout) (t : Token) : Option Layout := do
  let l ← (l.closeBlocks (-1)).removeKey?
  pure (((l.allowKey false).skip 3).emit t)

def openBracket? (l : Layout) (t : Token) : Option Layout := do
  let l ← l.saveKey?
  pure (({ l with keys := none :: l.keys, keyAllowed := true }.skip 1).emit t)

def closeBracket? (l : Layout) (t : Token) : Option Layout := do
  let l ← l.removeKey?
  -- A bracket too many is left to whoever reads the nodes.
  let keys := if l.inFlow then l.keys.drop 1 else l.keys
  pure (({ l with keys, keyAllowed := false }.skip 1).emit t)

def comma? (l : Layout) : Option Layout := do
  let l ← l.removeKey?
  pure (((l.allowKey true).skip 1).emit .comma)

/-- A hyphen before an item. -/
def item? (l : Layout) : Option Layout := do
  if !l.inFlow && !l.keyAllowed then none
  else
    let l ← (l.openBlock l.column l.tokens.length .blockSequence).removeKey?
    pure (((l.allowKey true).skip 1).emit .item)

/-- A question mark before a key. -/
def key? (l : Layout) : Option Layout := do
  if !l.inFlow && !l.keyAllowed then none
  else
    let l ← (l.openBlock l.column l.tokens.length .blockMapping).removeKey?
    pure (((l.allowKey !l.inFlow).skip 1).emit .key)

/-- A colon before a value. If a key may have started before it, that was one. -/
def value? (l : Layout) : Option Layout :=
  match l.keys with
  | some k :: others =>
    -- What was read is a key after all, so the tokens before it come late.
    let l := (l.emitAt k.before .key).openBlock k.start.column k.before .blockMapping
    some (({ l with keys := none :: others, keyAllowed := false }.skip 1).emit .value)
  | _ =>
    if !l.inFlow && !l.keyAllowed then none
    else
      let l := l.openBlock l.column l.tokens.length .blockMapping
      some (((l.allowKey !l.inFlow).skip 1).emit .value)

/-- Something that may be a key and is read by a reader of its own. -/
def keyLike? (l : Layout) (read : Cursor → Option (Token × Cursor)) : Option Layout := do
  let l ← l.saveKey?
  let (token, c) ← read l.cursor
  pure (((l.allowKey false).moved c).emit token)

def blockScalar? (l : Layout) (style : ScalarStyle) : Option Layout := do
  let l ← l.removeKey?
  let (text, c) ← Yaml.blockScalar? (style == .literal) l.indent l.cursor
  pure (((l.allowKey true).moved c).emit (.scalar text style))

/-- A plain scalar. A key may start on the line below it. -/
def plainScalar? (l : Layout) : Option Layout := do
  let l ← l.saveKey?
  let (text, broken, c) ← Yaml.plainScalar? l.inFlow l.indent l.cursor
  pure (((l.allowKey broken).moved c).emit (.scalar text .plain))

/-- A plain scalar may start with this character. -/
def startsPlain (l : Layout) (char : Char) : Bool :=
  let c := l.cursor
  if char == '-' then !c.seesAny 1 isBlank
  else if char == '?' || char == ':' then !l.inFlow && !c.gapAt 1
  else !isSpace char && !",[]\x7b\x7d#&*!|>'\"%@\x60".toList.contains char

/-- The token that starts here, with this character. -/
def token? (l : Layout) (char : Char) : Option Layout :=
  let c := l.cursor
  -- Directives and markers count at the start of a line only.
  if c.column = 0 && char == '%' then l.directive?
  else if c.startsWithThree '-' then l.marker? .documentStart
  else if c.startsWithThree '.' then l.marker? .documentEnd
  else if char == '[' then l.openBracket? .flowSequence
  else if char == '\x7b' then l.openBracket? .flowMapping
  else if char == ']' then l.closeBracket? .flowSequenceEnd
  else if char == '\x7d' then l.closeBracket? .flowMappingEnd
  else if char == ',' then l.comma?
  else if char == '-' && c.gapAt 1 then l.item?
  else if char == '?' && (l.inFlow || c.gapAt 1) then l.key?
  else if char == ':' && (l.inFlow || c.gapAt 1) then l.value?
  else if char == '*' then l.keyLike? fun c => (name? c).map fun r => (.alias r.1, r.2)
  else if char == '&' then l.keyLike? fun c => (name? c).map fun r => (.anchor r.1, r.2)
  else if char == '!' then
    l.keyLike? fun c => (tag? l.inFlow c).map fun r => (.tag r.1 r.2.1, r.2.2)
  else if char == '|' && !l.inFlow then l.blockScalar? .literal
  else if char == '>' && !l.inFlow then l.blockScalar? .folded
  else if char == '\'' || char == '"' then
    l.keyLike? fun c =>
      (quotedScalar? (char == '\'') c).map fun r => (.scalar r.1 .quoted, r.2)
  else if l.startsPlain char then l.plainScalar?
  else none

/-- Read one token, or see the end. -/
def step? (l : Layout) : Option Layout := do
  let l ← (l.skipToToken (l.cursor.rest.length + 1)).dropStaleKeys?
  -- Blocks close where the text goes on further to the left.
  let l := l.closeBlocks l.column
  match l.cursor.peek? 0 with
  | none => l.finish?
  | some char => l.token? char

/-- Read tokens up to the end, each of which leaves a character behind. -/
def readAll? : Nat → Layout → Option (List Token)
  | 0, _ => none
  | n + 1, l =>
    if l.ended then some l.tokens.reverse
    else
      match l.step? with
      | none => none
      | some l => readAll? n l

end Layout

/-- The tokens of a text. -/
def tokens? (text : String) : Option (List Token) :=
  let chars := text.toList
  if chars.all isAllowed then Layout.readAll? (chars.length + 2) (.start chars) else none

end RowLedger.Yaml
