import RowLedger.Digits
import RowLedger.Yaml.Cursor
import RowLedger.Yaml.Token

/-!
# Scalars of a YAML text

The text of a scalar in its four ways of writing. Plain and quoted scalars fold
their line breaks: a single break between two lines is a space, and of several
breaks all but the first stay. Block scalars stand on lines of their own below
a header, which may give their indentation and say what happens to the breaks
at the end.

Every round of a loop here leaves at least one character behind, so the length
of the text is a bound on their number.

## Main definitions

* `Gap`: Blanks and breaks between two words.
* `plainScalar?`: Words up to an indicator.
* `quotedScalar?`: Between quotes, with escapes if they are double.
* `blockScalar?`: Below a header.
-/

namespace RowLedger.Yaml

/-- Blanks and line breaks between two words of a scalar. -/
structure Gap where
  /-- There is a line break in it. -/
  broken : Bool
  /-- The blanks before any break. -/
  blanks : List Char
  /-- The text of the first break. -/
  first : List Char
  /-- The text of the other breaks. -/
  others : List Char

namespace Gap

def none : Gap := ⟨false, [], [], []⟩

/-- What a gap is folded into. -/
def folded (g : Gap) : List Char :=
  if g.broken then
    if g.first == ['\n'] then (if g.others.isEmpty then [' '] else g.others)
    else g.first ++ g.others
  else g.blanks

/-- Read on over blanks and breaks. Left of a column, where one is given, a tab is refused. -/
def read? (indent : Option Int) : Nat → Gap → Cursor → Option (Gap × Cursor)
  | 0, g, c => some (g, c)
  | n + 1, g, c =>
    match c.peek? 0 with
    | .none => some (g, c)
    | some char =>
      if isBlank char then
        if g.broken then
          if char == '\t' && indent.any ((c.column : Int) < ·) then .none
          else read? indent n g (c.skip 1)
        else read? indent n { g with blanks := g.blanks ++ [char] } (c.skip 1)
      else if isBreak char then
        let (text, c) := c.skipBreak
        if g.broken then read? indent n { g with others := g.others ++ text } c
        else read? indent n ⟨true, [], text, []⟩ c
      else some (g, c)

end Gap

/-- The length of a word of a plain scalar: up to a space, a colon with a gap behind it, or,
between brackets, an indicator. A colon directly before such an indicator is refused. -/
def plainWord? (inFlow : Bool) : List Char → Option Nat
  | [] => some 0
  | char :: rest =>
    if isSpace char then some 0
    else if inFlow && char == ':' && rest.head?.any (",?[]\x7b\x7d".toList.contains ·) then none
    else if char == ':' && rest.head?.all isSpace then some 0
    else if inFlow && ",[]\x7b\x7d".toList.contains char then some 0
    else (plainWord? inFlow rest).map (· + 1)

/-- Words and the gaps between them, from `text` on. The gap after the last word is told too. -/
def plainWords? (inFlow : Bool) (indent : Int) :
    Nat → List Char → Gap → Cursor → Option (List Char × Gap × Cursor)
  | 0, text, gap, c => some (text, gap, c)
  | n + 1, text, gap, c =>
    -- A comment or a marker between documents ends the scalar.
    if c.atMarker || c.sees 0 '#' then some (text, gap, c)
    else
      match plainWord? inFlow c.rest with
      | none => none
      | some 0 => some (text, gap, c)
      | some length => do
        let text := text ++ gap.folded ++ c.rest.take length
        let (gap, c) ← Gap.read? (some indent) (c.rest.length + 1) .none (c.skip length)
        -- The next line belongs to the block around.
        if !inFlow && (c.column : Int) < indent && (gap.broken || !gap.blanks.isEmpty) then
          some (text, gap, c)
        else plainWords? inFlow indent n text gap c

/-- A plain scalar: its text, and whether a line break follows it. In a block its lines are
indented more than the block. -/
def plainScalar? (inFlow : Bool) (indent : Int) (c : Cursor) :
    Option (String × Bool × Cursor) := do
  let (text, gap, c) ← plainWords? inFlow (indent + 1) (c.rest.length + 1) [] .none c
  pure (String.ofList text, gap.broken, c)

/-- The character that a letter behind a backslash stands for. -/
def escaped? : Char → Option Char
  | '0' => some '\x00'
  | 'a' => some '\x07'
  | 'b' => some '\x08'
  | 't' => some '\t'
  | '\t' => some '\t'
  | 'n' => some '\n'
  | 'v' => some '\x0b'
  | 'f' => some '\x0c'
  | 'r' => some '\r'
  | 'e' => some '\x1b'
  | ' ' => some ' '
  | '"' => some '"'
  | '/' => some '/'
  | '\\' => some '\\'
  | 'N' => some '\u0085'
  | '_' => some '\u00a0'
  | 'L' => some '\u2028'
  | 'P' => some '\u2029'
  | _ => none

/-- How many hexadecimal digits follow a letter behind a backslash. -/
def escapeDigits? : Char → Option Nat
  | 'x' => some 2
  | 'u' => some 4
  | 'U' => some 8
  | _ => none

/-- The character with a number, if it is one. -/
def charOf? (n : Nat) : Option Char :=
  if n.isValidChar then some (Char.ofNat n) else none

/-- The character that an escape at this place writes, and the length of the escape. -/
def escape? (c : Cursor) : Option (Char × Nat) :=
  match c.peek? 1 with
  | none => none
  | some letter =>
    match escapeDigits? letter with
    | none => (escaped? letter).map (·, 2)
    | some count => do
      let digits := (c.rest.drop 2).take count
      if digits.length = count then
        let char ← readHex? digits >>= charOf?
        pure (char, 2 + count)
      else none

/-- The rest of a word of a quoted scalar. An escaped line break ends the word, and the gap that
starts there has its break already. -/
def quotedWord? (single : Bool) : Nat → List Char → Cursor → Option (List Char × Gap × Cursor)
  | 0, text, c => some (text, .none, c)
  | n + 1, text, c =>
    if c.gapAt 0 then some (text, .none, c)
    else if single then
      if c.sees 0 '\'' then
        if c.sees 1 '\'' then quotedWord? single n (text ++ ['\'']) (c.skip 2)
        else some (text, .none, c)
      else quotedWord? single n (text ++ c.rest.take 1) (c.skip 1)
    else if c.sees 0 '"' then some (text, .none, c)
    else if c.sees 0 '\\' then
      -- The two lines are joined without a space.
      if c.seesAny 1 isBreak then some (text, ⟨true, [], [], []⟩, (c.skip 1).skipBreak.2)
      else
        match escape? c with
        | none => none
        | some (char, length) => quotedWord? single n (text ++ [char]) (c.skip length)
    else quotedWord? single n (text ++ c.rest.take 1) (c.skip 1)

/-- Words and gaps up to the closing quote. -/
def quotedWords? (single : Bool) : Nat → List Char → Cursor → Option (List Char × Cursor)
  | 0, _, _ => none
  | n + 1, text, c =>
    if c.atMarker || c.atEnd then none
    else do
      let (text, gap, c) ← quotedWord? single (c.rest.length + 1) text c
      if c.sees 0 (if single then '\'' else '"') then pure (text, c.skip 1)
      else
        let (gap, c) ← Gap.read? none (c.rest.length + 1) gap c
        quotedWords? single n (text ++ gap.folded) c

/-- A quoted scalar, from its opening quote on. -/
def quotedScalar? (single : Bool) (c : Cursor) : Option (String × Cursor) := do
  let (text, c) ← quotedWords? single (c.rest.length + 1) [] (c.skip 1)
  pure (String.ofList text, c)

/-- What happens to the line breaks at the end of a block scalar. -/
inductive Chomping where
  | strip
  | clip
  | keep
  deriving DecidableEq

def chomping? (c : Cursor) : Option Chomping :=
  if c.sees 0 '+' then some .keep else if c.sees 0 '-' then some .strip else none

/-- The header of a block scalar: chomping and indentation, in either order. -/
def blockHeader? (c : Cursor) : Option (Chomping × Nat × Cursor) := do
  let (before, c) := match chomping? c with
    | some ch => (some ch, c.skip 1)
    | none => (none, c)
  let (extra, c) ← match c.peek? 0 with
    | some d =>
      -- No block is indented by nothing.
      if d == '0' then none
      else if d.isDigit then some (d.toNat - '0'.toNat, c.skip 1)
      else some (0, c)
    | none => some (0, c)
  let (chomping, c) := match before with
    | some ch => (ch, c)
    | none =>
      if extra = 0 then (.clip, c)
      else
        match chomping? c with
        | some ch => (ch, c.skip 1)
        | none => (.clip, c)
  let c ← c.skipLine?
  pure (chomping, extra, c)

/-- Empty lines of a block scalar, with the widest indentation among them. An indentation of zero
is not known yet. A tab in the indentation is refused. -/
def blockBreaks? (indent : Nat) :
    Nat → Nat → List Char → Cursor → Option (Nat × List Char × Cursor)
  | 0, widest, breaks, c => some (widest, breaks, c)
  | n + 1, widest, breaks, c =>
    let spaces := (c.rest.takeWhile (· == ' ')).length
    let c := c.skip (if indent = 0 then spaces else min spaces (indent - c.column))
    let widest := max widest c.column
    if (indent = 0 || c.column < indent) && c.sees 0 '\t' then none
    else if c.seesAny 0 isBreak then
      let (text, c) := c.skipBreak
      blockBreaks? indent n widest (breaks ++ text) c
    else some (widest, breaks, c)

/-- The lines of a block scalar. Of a folded one, the break between two lines is a space unless
one of them starts with a blank. -/
def blockLines? (literal : Bool) (indent : Nat) :
    Nat → List Char → List Char → List Char → Bool → Cursor →
      Option (List Char × List Char × List Char × Cursor)
  | 0, text, first, breaks, _, c => some (text, first, breaks, c)
  | n + 1, text, first, breaks, blankBefore, c =>
    if c.column != indent || c.atEnd then some (text, first, breaks, c)
    else
      let blank := c.seesAny 0 isBlank
      let joined :=
        -- A break next to a line that starts with a blank stays.
        if !literal && first == ['\n'] && !blankBefore && !blank then
          (if breaks.isEmpty then [' '] else [])
        else first
      let (line, c) := c.takeWhile (!isBreak ·)
      let (next, c) := c.skipBreak
      match blockBreaks? indent (c.rest.length + 1) 0 [] c with
      | none => none
      | some (_, others, c) =>
        blockLines? literal indent n (text ++ joined ++ breaks ++ line) next others blank c

/-- A block scalar, from its indicator on, inside a block with an indentation. -/
def blockScalar? (literal : Bool) (outer : Int) (c : Cursor) : Option (String × Cursor) := do
  let (chomping, extra, c) ← blockHeader? (c.skip 1)
  let given := if extra = 0 then 0 else (max outer 0).toNat + extra
  let (widest, breaks, c) ← blockBreaks? given (c.rest.length + 1) 0 [] c
  -- Without a number the lines themselves tell the indentation.
  let indent := if given = 0 then max (max widest (outer + 1).toNat) 1 else given
  let (text, first, breaks, c) ←
    blockLines? literal indent (c.rest.length + 1) [] [] breaks false c
  let tail := match chomping with
    | .strip => []
    | .clip => first
    | .keep => first ++ breaks
  pure (String.ofList (text ++ tail), c)

end RowLedger.Yaml
