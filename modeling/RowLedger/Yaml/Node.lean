import RowLedger.Table
import RowLedger.Yaml.Layout

/-!
# Nodes of a YAML text

The tree that the tokens of a text describe: scalars, sequences, mappings, and
aliases of nodes that are marked elsewhere. Between brackets and in blocks a
node may be left out, and is then an empty plain scalar. The entries of a
mapping are kept as they are written, with their order and their repetitions,
because what a repetition means is up to the reader.

A mark is a number, and not a name. It is the number of different names that
are known when a node is marked, and an alias has the number that its name got
last. A name has to be known before it is used.

## Main definitions

* `Node`: A node with its tag and its mark.
* `Node.marked`: All marked nodes, in the order in which they start.
* `Document`: The root and the marked nodes.
* `Document.read?`: The only document of a text.
* `Document.resolve`: What an alias stands for.
-/

namespace RowLedger.Yaml

inductive Node where
  | scalar (mark : Option Nat) (tag : Option String) (text : String) (style : ScalarStyle)
  | sequence (mark : Option Nat) (items : List Node)
  | mapping (mark : Option Nat) (entries : List (Node × Node))
  | alias (number : Nat)

/-- A node that was left out. -/
def Node.empty : Node := .scalar none none "" .plain

instance : Inhabited Node := ⟨.empty⟩

def Node.mark? : Node → Option Nat
  | .scalar mark .. => mark
  | .sequence mark _ => mark
  | .mapping mark _ => mark
  | .alias _ => none

mutual

/-- All marked nodes, in the order in which they start. -/
def Node.marked (node : Node) : List (Nat × Node) :=
  let below := match node with
    | .sequence _ items => markedItems items
    | .mapping _ entries => markedEntries entries
    | _ => []
  match node.mark? with
  | none => below
  | some number => (number, node) :: below

def markedItems : List Node → List (Nat × Node)
  | [] => []
  | item :: rest => item.marked ++ markedItems rest

def markedEntries : List (Node × Node) → List (Nat × Node)
  | [] => []
  | (key, value) :: rest => key.marked ++ value.marked ++ markedEntries rest

end

/-- What is known while nodes are read. -/
structure NodeReader where
  tokens : List Token
  /-- The number of each name. -/
  names : Table String Nat
  /-- What the handles of tags stand for. -/
  handles : List (String × String)

namespace NodeReader

def next? (r : NodeReader) : Option Token := r.tokens.head?

def advance (r : NodeReader) : NodeReader := { r with tokens := r.tokens.drop 1 }

/-- The next token is one of these. -/
def sees (r : NodeReader) (tokens : List Token) : Bool := r.next?.any (tokens.contains ·)

/-- Go on over a token that has to come next. -/
def expect? (r : NodeReader) (t : Token) : Option NodeReader :=
  if r.sees [t] then some r.advance else none

/-- Mark the node that comes next. -/
def nameNode (r : NodeReader) (name : String) : Nat × NodeReader :=
  let number := r.names.size
  (number, { r with names := r.names.insert name number })

/-- The tag of a node in full. -/
def fullTag? (r : NodeReader) (handle suffix : String) : Option String :=
  if handle.isEmpty then some suffix
  else (r.handles.lookup handle).map (· ++ suffix)

/-- What stands before a node. -/
structure Properties where
  anchor : Option String
  tag : Option (String × String)

/-- An anchor and a tag, in either order and each at most once. -/
def properties (r : NodeReader) : Properties × NodeReader :=
  match r.tokens with
  | .anchor name :: .tag handle suffix :: rest =>
    (⟨some name, some (handle, suffix)⟩, { r with tokens := rest })
  | .tag handle suffix :: .anchor name :: rest =>
    (⟨some name, some (handle, suffix)⟩, { r with tokens := rest })
  | .anchor name :: rest => (⟨some name, none⟩, { r with tokens := rest })
  | .tag handle suffix :: rest => (⟨none, some (handle, suffix)⟩, { r with tokens := rest })
  | _ => (⟨none, none⟩, r)

/-- The tag of a scalar. A lone exclamation mark is none. -/
def scalarTag (tag : Option String) : Option String := if tag = some "!" then none else tag

mutual

/-- A node. A block may start here, or a sequence whose hyphens are not indented, if that is
said. -/
def node? (block flat : Bool) : Nat → NodeReader → Option (Node × NodeReader)
  | 0, _ => none
  | n + 1, r =>
    match r.next? with
    | some (.alias name) => (r.names.get? name).map fun number => (.alias number, r.advance)
    | _ => do
      let (properties, r) := r.properties
      let tag ← match properties.tag with
        | none => some none
        | some (handle, suffix) => (r.fullTag? handle suffix).map some
      -- The name is known from here on, inside the node as well.
      let (mark, r) := match properties.anchor with
        | none => (none, r)
        | some name =>
          let (number, r) := r.nameNode name
          (some number, r)
      match r.next? with
      | some (.scalar text style) =>
        pure (.scalar mark (scalarTag tag) text style, r.advance)
      | some .flowSequence =>
        let (items, r) ← flowItems? true n r.advance
        pure (.sequence mark items, r)
      | some .flowMapping =>
        let (entries, r) ← flowEntries? true n r.advance
        pure (.mapping mark entries, r)
      | other =>
        if flat && other == some .item then
          let (items, r) ← flatItems? n r
          pure (.sequence mark items, r)
        else if block && other == some .blockSequence then
          let (items, r) ← blockItems? n r.advance
          pure (.sequence mark items, r)
        else if block && other == some .blockMapping then
          let (entries, r) ← blockEntries? n r.advance
          pure (.mapping mark entries, r)
        -- A node that has a name or a tag may be left out.
        else if properties.anchor.isSome || properties.tag.isSome then
          pure (.scalar mark tag "" .plain, r)
        else none

/-- A node, unless one of some tokens comes next. -/
def nodeUnless? (block flat : Bool) (ends : List Token) :
    Nat → NodeReader → Option (Node × NodeReader)
  | 0, _ => none
  | n + 1, r => if r.sees ends then some (.empty, r) else node? block flat n r

/-- Items up to the end of their block. -/
def blockItems? : Nat → NodeReader → Option (List Node × NodeReader)
  | 0, _ => none
  | n + 1, r =>
    if r.sees [.blockEnd] then some ([], r.advance)
    else do
      let r ← r.expect? .item
      let (item, r) ← nodeUnless? true false [.item, .blockEnd] n r
      let (items, r) ← blockItems? n r
      pure (item :: items, r)

/-- Items that stand at the column of their key. -/
def flatItems? : Nat → NodeReader → Option (List Node × NodeReader)
  | 0, _ => none
  | n + 1, r =>
    if r.sees [.item] then do
      let (item, r) ← nodeUnless? true false [.item, .key, .value, .blockEnd] n r.advance
      let (items, r) ← flatItems? n r
      pure (item :: items, r)
    else some ([], r)

/-- Entries up to the end of their block. -/
def blockEntries? : Nat → NodeReader → Option (List (Node × Node) × NodeReader)
  | 0, _ => none
  | n + 1, r =>
    if r.sees [.blockEnd] then some ([], r.advance)
    else do
      let r ← r.expect? .key
      let ends := [.key, .value, .blockEnd]
      let (key, r) ← nodeUnless? true true ends n r
      let (value, r) ←
        if r.sees [.value] then nodeUnless? true true ends n r.advance else some (.empty, r)
      let (entries, r) ← blockEntries? n r
      pure ((key, value) :: entries, r)

/-- Items up to the closing bracket, with commas between them. An item may be a single entry of a
mapping. -/
def flowItems? (first : Bool) : Nat → NodeReader → Option (List Node × NodeReader)
  | 0, _ => none
  | n + 1, r =>
    if r.sees [.flowSequenceEnd] then some ([], r.advance)
    else do
      let r ← if first then some r else r.expect? .comma
      -- The last comma may be one too many.
      if r.sees [.flowSequenceEnd] then pure ([], r.advance)
      else
        let (item, r) ← if r.sees [.key] then singleEntry? n r.advance else node? false false n r
        let (items, r) ← flowItems? false n r
        pure (item :: items, r)

/-- An entry that is a mapping of its own. Where its key is left out, so is what follows it. -/
def singleEntry? : Nat → NodeReader → Option (Node × NodeReader)
  | 0, _ => none
  | n + 1, r => do
    let (key, r) ←
      if r.sees [.value, .comma, .flowSequenceEnd] then some (.empty, r.advance)
      else node? false false n r
    let (value, r) ←
      if r.sees [.value] then nodeUnless? false false [.comma, .flowSequenceEnd] n r.advance
      else some (.empty, r)
    pure (.mapping none [(key, value)], r)

/-- Entries up to the closing brace, with commas between them. A key may have no value. -/
def flowEntries? (first : Bool) : Nat → NodeReader → Option (List (Node × Node) × NodeReader)
  | 0, _ => none
  | n + 1, r =>
    if r.sees [.flowMappingEnd] then some ([], r.advance)
    else do
      let r ← if first then some r else r.expect? .comma
      -- The last comma may be one too many.
      if r.sees [.flowMappingEnd] then pure ([], r.advance)
      else if r.sees [.key] then
        let (key, r) ← nodeUnless? false false [.value, .comma, .flowMappingEnd] n r.advance
        let (value, r) ←
          if r.sees [.value] then nodeUnless? false false [.comma, .flowMappingEnd] n r.advance
          else some (.empty, r)
        let (entries, r) ← flowEntries? false n r
        pure ((key, value) :: entries, r)
      else
        let (key, r) ← node? false false n r
        let (entries, r) ← flowEntries? false n r
        pure ((key, .empty) :: entries, r)

end

/-- The directives before a document: the version once, and each handle once. -/
def directives? : Bool → List (String × String) → List Token →
    Option (List (String × String) × List Token)
  | seen, handles, .version major minor :: rest =>
    if !seen && major == 1 && (minor == 1 || minor == 2) then directives? true handles rest
    else none
  | seen, handles, .tagPrefix handle prefixText :: rest =>
    if (handles.lookup handle).isSome then none
    else directives? seen (handles ++ [(handle, prefixText)]) rest
  | _, handles, rest => some (handles, rest)

/-- What the handles stand for that no directive gives a meaning. -/
def defaultHandles : List (String × String) := [("!", "!"), ("!!", "tag:yaml.org,2002:")]

/-- Nothing but the ends of documents is left. -/
def isDone (r : NodeReader) : Bool := r.tokens.all (· == .documentEnd)

end NodeReader

structure Document where
  root : Node
  /-- The marked nodes. -/
  marked : List (Nat × Node)

namespace Document

/-- The only document among the tokens of a text. -/
def ofTokens? (tokens : List Token) : Option Document := do
  let enough := 2 * tokens.length + 2
  let (handles, rest) ← NodeReader.directives? false [] tokens
  let explicit := rest.head? == some .documentStart
  -- Directives need a marker behind them.
  if tokens.isEmpty || (!explicit && rest.length != tokens.length) then none
  else
    let r : NodeReader :=
      ⟨if explicit then rest.drop 1 else rest, .empty, handles ++ NodeReader.defaultHandles⟩
    let (root, r) ←
      if explicit && (r.tokens.isEmpty || r.sees [.documentStart, .documentEnd]) then
        some (.empty, r)
      else NodeReader.node? true false enough r
    if r.isDone then pure ⟨root, root.marked⟩ else none

/-- The only document of a text. -/
def read? (text : String) : Option Document := tokens? text >>= ofTokens?

/-- The node itself, or what an alias stands for. -/
def resolve (d : Document) : Node → Node
  | .alias number =>
    match d.marked.reverse.find? (·.1 == number) with
    | some (_, node) => node
    | none => .empty
  | node => node

end Document

end RowLedger.Yaml
