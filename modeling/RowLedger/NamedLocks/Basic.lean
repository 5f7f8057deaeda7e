import RowLedger.Table

/-!
# Named locks

Locks on names, held by bodies of code while they run. A body asks for all its
names at once. It gets all of them if none is held, and otherwise it gets
nothing and is told the least of its names that is held. Nobody waits, so
nobody can wait in a circle.

What counts about a request is the set of its names: they are sorted and each
is kept once before anything is looked at. Which names are held is kept beside
the names of each running body, because a body gives back exactly its own
names when it ends, in whatever order bodies end and however they end.

## Main definitions

* `canonicalNames`: Names sorted, each once.
* `NamedLocks`: The names held and the bodies running.
* `NamedLocks.enter`: Start a body with all its names, or tell the busy one.
* `NamedLocks.leave`: End a body and give its names back.
-/

namespace RowLedger

/-- The names in ascending order, each once. Strings are compared by code points, which is the
order of their UTF-8 bytes. -/
def canonicalNames (names : List String) : List String :=
  (Table.ofList (names.map fun n => (n, ()))).keys

structure NamedLocks where
  held : Table String Unit
  /-- The names of each running body. -/
  running : Table Nat (List String)
  /-- The number of bodies started so far. -/
  started : Nat

namespace NamedLocks

def empty : NamedLocks := ⟨.empty, .empty, 0⟩

instance : Inhabited NamedLocks := ⟨empty⟩

def isHeld (l : NamedLocks) (name : String) : Bool := l.held.contains name

def heldCount (l : NamedLocks) : Nat := l.held.size

/-- The least of the names that is held. -/
def busy? (l : NamedLocks) (names : List String) : Option String :=
  (canonicalNames names).find? l.isHeld

/-- Start a body that holds all the names. -/
def start (l : NamedLocks) (names : List String) : NamedLocks :=
  let names := canonicalNames names
  { held := names.foldl (fun t n => t.insert n ()) l.held
    running := l.running.insert l.started names
    started := l.started + 1 }

/-- Start a body and tell its number, or tell the least name that is held. -/
def enter (l : NamedLocks) (names : List String) : Except String (Nat × NamedLocks) :=
  match l.busy? names with
  | some name => .error name
  | none => .ok (l.started, l.start names)

/-- End a body: its names are free again. -/
def leave (l : NamedLocks) (body : Nat) : NamedLocks :=
  match l.running.get? body with
  | none => l
  | some names =>
    { l with
      held := names.foldl (fun t n => t.erase n) l.held
      running := l.running.erase body }

end NamedLocks

end RowLedger
