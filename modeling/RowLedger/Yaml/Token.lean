/-!
# Tokens of a YAML text

The parts of a text after its layout has been made visible: where a block
opens by indentation there is a token for it, where it closes there is one, and
a key is announced before it.

## Main definitions

* `ScalarStyle`: How a scalar is written.
* `Token`: A part of the text.
-/

namespace RowLedger.Yaml

inductive ScalarStyle where
  | plain
  | quoted
  /-- A block that keeps its line breaks. -/
  | literal
  /-- A block that folds its lines. -/
  | folded
  deriving DecidableEq

inductive Token where
  | version (major minor : Nat)
  /-- A directive by which a handle stands for the beginning of tags. -/
  | tagPrefix (handle prefixText : String)
  | documentStart
  | documentEnd
  | blockSequence
  | blockMapping
  | blockEnd
  | flowSequence
  | flowSequenceEnd
  | flowMapping
  | flowMappingEnd
  /-- The hyphen before an item. -/
  | item
  /-- The comma between items. -/
  | comma
  | key
  | value
  | alias (name : String)
  | anchor (name : String)
  | tag (handle suffix : String)
  | scalar (text : String) (style : ScalarStyle)
  deriving DecidableEq

end RowLedger.Yaml
