/-!
# Places in a text

Where a reader of indented text stands: the characters still to come, and the
line and the column that layout rules ask about. A line break is one of five
characters, and a carriage return with a line feed is a single break. Columns
count characters and not cells, so a tab is one column.

## Main definitions

* `Cursor`: A place in a text.
* `Cursor.skip`, `Cursor.skipBreak`: One character or one line break on.
* `Cursor.skipWhile`: On over the characters of a class.
* `Cursor.atMarker`: A line starts with a marker between documents.
-/

namespace RowLedger.Yaml

def isBreak (c : Char) : Bool :=
  c == '\n' || c == '\r' || c == '\u0085' || c == '\u2028' || c == '\u2029'

def isBlank (c : Char) : Bool := c == ' ' || c == '\t'

def isSpace (c : Char) : Bool := isBlank c || isBreak c

/-- Letters, digits, hyphen and underscore of names. -/
def isNameChar (c : Char) : Bool := c.isAlphanum || c == '-' || c == '_'

/-- Characters that a text may hold at all. Most control characters are none. -/
def isAllowed (c : Char) : Bool :=
  c == '\t' || c == '\n' || c == '\r' || c == '\u0085' ||
    (0x20 ≤ c.toNat && c.toNat ≤ 0x7e) || (0xa0 ≤ c.toNat && c.toNat ≤ 0xfffd) ||
    0x10000 ≤ c.toNat

/-- A mark that may stand at the start of a line without any meaning. -/
def isByteOrderMark (c : Char) : Bool := c == '\ufeff'

structure Cursor where
  rest : List Char
  index : Nat
  line : Nat
  column : Nat

namespace Cursor

def ofText (text : List Char) : Cursor := ⟨text, 0, 0, 0⟩

def peek? (c : Cursor) (ahead : Nat) : Option Char := c.rest[ahead]?

/-- The character some places ahead is the given one. -/
def sees (c : Cursor) (ahead : Nat) (char : Char) : Bool := c.peek? ahead == some char

/-- The character some places ahead is of a class; the end of the text is of none. -/
def seesAny (c : Cursor) (ahead : Nat) (p : Char → Bool) : Bool := (c.peek? ahead).any p

def atEnd (c : Cursor) : Bool := c.rest.isEmpty

/-- A blank, a break or the end of the text is some places ahead. -/
def gapAt (c : Cursor) (ahead : Nat) : Bool := (c.peek? ahead).all isSpace

/-- A break or the end of the text is next. -/
def atLineEnd (c : Cursor) : Bool := (c.peek? 0).all isBreak

/-- Some characters on, none of them a break. -/
def skip (c : Cursor) (count : Nat) : Cursor :=
  { c with
    rest := c.rest.drop count
    index := c.index + count
    column := c.column + count }

/-- One line break on. Its text is a line feed, unless it is a separator of its own. -/
def skipBreak (c : Cursor) : List Char × Cursor :=
  match c.rest with
  | '\r' :: '\n' :: rest => (['\n'], ⟨rest, c.index + 2, c.line + 1, 0⟩)
  | ch :: rest =>
    if isBreak ch then
      (if ch == '\u2028' || ch == '\u2029' then [ch] else ['\n'],
        ⟨rest, c.index + 1, c.line + 1, 0⟩)
    else ([], c)
  | [] => ([], c)

/-- The characters of a class that come next, none of them a break. -/
def takeWhile (c : Cursor) (p : Char → Bool) : List Char × Cursor :=
  let run := c.rest.takeWhile p
  (run, c.skip run.length)

def skipWhile (c : Cursor) (p : Char → Bool) : Cursor := (c.takeWhile p).2

/-- A comment reaches to the end of the line. -/
def skipComment (c : Cursor) : Cursor :=
  if c.sees 0 '#' then c.skipWhile (!isBreak ·) else c

/-- Nothing but blanks and a comment is left of the line, which ends here. -/
def skipLine? (c : Cursor) : Option Cursor :=
  let c := (c.skipWhile isBlank).skipComment
  if c.atLineEnd then some c.skipBreak.2 else none

/-- A line starts with three of a character and a gap. -/
def startsWithThree (c : Cursor) (char : Char) : Bool :=
  c.column == 0 && c.sees 0 char && c.sees 1 char && c.sees 2 char && c.gapAt 3

/-- A line starts with one of the markers that stand between documents. -/
def atMarker (c : Cursor) : Bool := c.startsWithThree '-' || c.startsWithThree '.'

end Cursor

end RowLedger.Yaml
