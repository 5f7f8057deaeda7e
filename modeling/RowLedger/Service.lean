import RowLedger.Store.Basic

/-!
# The store as its callers meet it

A store, the faults that are planned for calls to come, and what has been told
and noted on the way. A planned fault takes the place of the call: the store
does not see the call at all. So a transaction whose commit or rollback was
taken by a fault is still open, and whoever drops it ends it.

## Main definitions

* `FaultPlan`: For each kind of call, the faults of the calls to come.
* `Note`: What a unit of work writes down for its caller.
* `Service`: The store, the plan, the notices and the notes.
* `Service.request`, `Service.commit`, `Service.rollback`: The calls of a
  transaction, answered with faults.
-/

namespace RowLedger

/-- The faults of the calls to come. A call beyond the end of its list has none. -/
structure FaultPlan where
  begins : List (Option StoreFault)
  commits : List (Option StoreFault)
  rollbacks : List (Option StoreFault)
  deriving DecidableEq

def FaultPlan.empty : FaultPlan := ⟨[], [], []⟩

/-- What a unit of work writes down for its caller. -/
inductive Note where
  | balance (amount : Decimal)
  | failed (failure : Failure)
  | succeeded
  deriving DecidableEq

structure Service where
  store : Store
  plan : FaultPlan
  /-- What the log was told, oldest first. -/
  notices : List Notice
  /-- What was noted, oldest first. -/
  notes : List Note
  deriving DecidableEq

namespace Service

def ofStore (store : Store) : Service := ⟨store, .empty, [], []⟩

instance : Inhabited Service := ⟨ofStore .empty⟩

def tell (s : Service) (notices : List Notice) : Service :=
  { s with notices := s.notices ++ notices }

def note (s : Service) (n : Note) : Service := { s with notes := s.notes ++ [n] }

/-- The fault of the next begin. -/
def takeBeginFault (s : Service) : Option StoreFault × Service :=
  match s.plan.begins with
  | [] => (none, s)
  | fault :: rest => (fault, { s with plan := { s.plan with begins := rest } })

/-- Open a transaction, without a look at the plan. -/
def start (s : Service) : TxId × Service :=
  let (tx, store) := s.store.start
  (tx, { s with store })

/-- An answered request has an answer; one that waits has none. -/
def request (s : Service) (tx : TxId) (r : Request) :
    Option (Except StoreFault Decimal) × Service :=
  match s.store.ask tx r with
  | (.served amount, store) => (some (.ok amount), { s with store })
  | (.refused reason, store) =>
    (some (.error reason.toFault), { s with store }.tell reason.notices)
  | (.waiting, store) => (none, { s with store })

def commit (s : Service) (tx : TxId) : Except StoreFault Unit × Service :=
  match s.plan.commits with
  -- The store does not see the call, so the transaction is still open.
  | some fault :: rest =>
    (.error fault, { s with plan := { s.plan with commits := rest } })
  | rest =>
    let s := { s with plan := { s.plan with commits := rest.tail } }
    match s.store.commit tx with
    | (.error reason, store) => (.error reason.toFault, { s with store })
    | (.ok (), store) => (.ok (), { s with store })

def rollback (s : Service) (tx : TxId) : Except StoreFault Unit × Service :=
  match s.plan.rollbacks with
  | some fault :: rest =>
    (.error fault, { s with plan := { s.plan with rollbacks := rest } })
  | rest =>
    let s := { s with plan := { s.plan with rollbacks := rest.tail } }
    (.ok (), { s with store := s.store.release tx })

/-- Drop a transaction. If it is still open, that rolls it back. -/
def drop (s : Service) (tx : TxId) : Service := { s with store := s.store.release tx }

/-- Drop the call of a transaction, which stays open. -/
def abandon (s : Service) (tx : TxId) : Service := { s with store := s.store.abandon tx }

end Service

end RowLedger
