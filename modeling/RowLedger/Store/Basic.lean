import RowLedger.Store.Locks

/-!
# The store

Accounts under transactions. A transaction locks each row it reads or writes
until it ends, and nobody else gets that row meanwhile. What it writes is kept
beside the accounts, as one delta for each row, and is applied to all of them
at once when it commits. A transaction is open as long as the store has a
record of it; one that has ended has none, and its locks and deltas are gone
with the record.

Who holds a row is written down twice: the locks know the holder of each row,
and a transaction knows the rows it has locked. The record of a transaction is
what it looks at first, so a row that it has already is not asked for again.

A request is served at once, is refused, or waits for its row. The end of a
transaction wakes every call that waits. A call that has been woken looks at
its row again, and only then: until it is woken nobody has given a row back.

## Main definitions

* `Request`: To read a row or to add to it.
* `Refusal`: Why the store refuses.
* `OpenTx`: The rows, the deltas and the waiting call of a transaction.
* `OpenTx.serve`: Serve a request on a row that is locked.
* `Store`: Accounts, locks, open transactions and what is due.
* `Store.request`: Make a request.
* `Store.poll`: Let the call that waits look at its row again.
* `Store.ask`: The one or the other.
* `Store.abandon`: Give a waiting call up.
* `Store.commit`, `Store.release`: The two ways to end a transaction.
-/

namespace RowLedger

/-- What a transaction asks of one row. -/
inductive Request where
  /-- Read the balance, the own delta included. -/
  | query (row : AccountId)
  /-- Add to the own delta. -/
  | update (row : AccountId) (delta : Decimal)
  deriving DecidableEq

def Request.row : Request → AccountId
  | .query row => row
  | .update row _ => row

/-- Why the store refuses. -/
inductive Refusal where
  /-- The transaction has ended. -/
  | ended
  | noAccount (row : AccountId)
  /-- To wait for the holder of the row would close a cycle. -/
  | deadlock (tx : TxId) (row : AccountId) (holder : TxId)
  | balanceOverflow (row : AccountId)
  | deltaOverflow (row : AccountId)
  | negativeBalance (row : AccountId) (balance : Decimal)
  /-- A conflict that was due. -/
  | serialization
  deriving DecidableEq

namespace Refusal

/-- The fault that a refusal is reported as. -/
def toFault : Refusal → StoreFault
  | .ended => .closed
  | .noAccount row => .notFound row
  | .deadlock tx row holder =>
    .deadlock (s!"deadlock detected: transaction {tx} waits for account {row} " ++
      s!"held by transaction {holder}")
  | .balanceOverflow row => .outOfRange s!"balance of account {row} overflowed"
  | .deltaOverflow row => .outOfRange s!"pending delta of account {row} overflowed"
  | .negativeBalance row balance =>
    .constraint (s!"balance of account {row} would become {balance.render} " ++
      "(check balance >= 0)")
  | .serialization => .serialization "could not serialize access due to concurrent update"

/-- Another transaction was in the way. -/
def isConflict : Refusal → Bool
  | .deadlock .. | .serialization => true
  | _ => false

/-- What the log is told about a refusal. -/
def notices : Refusal → List Notice
  | .deadlock tx row holder => [.cycleFound tx row holder]
  | _ => []

end Refusal

/-- What comes of a request. A served query answers the balance, a served update the new delta. -/
inductive Reply where
  | served (amount : Decimal)
  | refused (reason : Refusal)
  | waiting
  deriving DecidableEq

/-- A call that waits for its row. -/
structure Wait where
  request : Request
  /-- Some transaction has ended since the call last looked at its row. -/
  woken : Bool
  deriving DecidableEq

/-- A transaction that has not ended. -/
structure OpenTx where
  /-- The rows it has locked, in that order. -/
  held : List AccountId
  /-- The deltas to apply when it commits. -/
  pending : Table AccountId Decimal
  /-- The call that waits. -/
  blocked : Option Wait
  deriving DecidableEq

namespace OpenTx

def fresh : OpenTx := ⟨[], .empty, none⟩

/-- The delta of a row, zero if there is none. -/
def delta (t : OpenTx) (row : AccountId) : Decimal := (t.pending.get? row).getD .zero

/-- No call waits any longer. -/
def idle (t : OpenTx) : OpenTx := { t with blocked := none }

/-- A row locked on top of the others. -/
def lock (t : OpenTx) (row : AccountId) : OpenTx := { t with held := t.held ++ [row] }

/-- The call that waits will look at its row again. -/
def wake (t : OpenTx) : OpenTx :=
  { t with blocked := t.blocked.map fun w => { w with woken := true } }

/-- Serve a request on a row that is locked, given the account. -/
def serve (t : OpenTx) (account : Option Account) : Request → Reply × OpenTx
  | .query row =>
    match account with
    | none => (.refused (.noAccount row), t)
    | some account =>
      match account.balance.add? (t.delta row) with
      | none => (.refused (.balanceOverflow row), t)
      | some amount => (.served amount, t)
  | .update row delta =>
    match (t.delta row).add? delta with
    | none => (.refused (.deltaOverflow row), t)
    | some sum => (.served sum, { t with pending := t.pending.insert row sum })

end OpenTx

structure Store where
  accounts : Table AccountId Account
  locks : RowLocks
  /-- The transactions that have not ended. -/
  live : Table TxId OpenTx
  /-- The number of transactions begun so far. -/
  begun : Nat
  /-- The number of commits to come that fail with a conflict. -/
  conflictsDue : Nat
  deriving DecidableEq

namespace Store

def empty : Store := ⟨.empty, .empty, .empty, 0, 0⟩

instance : Inhabited Store := ⟨empty⟩

/-- A store with these accounts in which nothing has happened yet. -/
def ofAccounts (accounts : Table AccountId Account) : Store := { empty with accounts }

/-- Put a new row in the place of any old one. -/
def insert (s : Store) (id : AccountId) (balance : Decimal) : Store :=
  { s with accounts := s.accounts.insert id (.fresh id balance) }

/-- A store with these rows; of two with one id the later counts. -/
def ofBalances (rows : List (AccountId × Decimal)) : Store :=
  rows.foldl (fun s row => s.insert row.1 row.2) empty

/-- Let the next commits fail. -/
def inject (s : Store) (conflicts : Nat) : Store := { s with conflictsDue := conflicts }

/-- The committed balances in the order of their ids, summed up as long as the sums fit. -/
def total? (s : Store) : Option Decimal :=
  s.accounts.values.foldlM (fun sum account => sum.add? account.balance) .zero

/-- The number of rows that are locked. -/
def lockedRows (s : Store) : Nat := s.locks.holders.size

/-- Open a transaction and tell its number. -/
def start (s : Store) : TxId × Store :=
  let tx := s.begun + 1
  (tx, { s with live := s.live.insert tx .fresh, begun := tx })

/-- A transaction changed together with the locks. -/
def put (s : Store) (tx : TxId) (t : OpenTx) (locks : RowLocks) : Store :=
  { s with locks, live := s.live.insert tx t }

/-- Look at a row that the transaction does not hold, and take it or wait for it. -/
def examine (s : Store) (tx : TxId) (t : OpenTx) (r : Request) : Reply × Store :=
  match s.accounts.get? r.row with
  | none =>
    -- A row that is not there ends the wait for any other.
    (.refused (.noAccount r.row), s.put tx t.idle (s.locks.stopWaiting tx))
  | some account =>
    match s.locks.ask tx r.row with
    | (.waiting, locks) => (.waiting, s.put tx { t with blocked := some ⟨r, false⟩ } locks)
    | (.cycle holder, locks) =>
      (.refused (.deadlock tx r.row holder), s.put tx t.idle locks)
    | (.granted, locks) =>
      let (reply, t) := (t.idle.lock r.row).serve (some account) r
      (reply, s.put tx t locks)

/-- Make a request. -/
def request (s : Store) (tx : TxId) (r : Request) : Reply × Store :=
  match s.live.get? tx with
  | none => (.refused .ended, s)
  | some t =>
    if r.row ∈ t.held then
      -- Nothing new is taken, so the mark of an old wait stays.
      let (reply, t) := t.serve (s.accounts.get? r.row) r
      (reply, s.put tx t s.locks)
    else s.examine tx t r

/-- Let the call that waits look at its row again, if it has been woken. -/
def poll (s : Store) (tx : TxId) : Reply × Store :=
  match s.live.get? tx with
  | none => (.refused .ended, s)
  | some t =>
    match t.blocked with
    | some ⟨r, true⟩ => s.examine tx t r
    | _ => (.waiting, s)

/-- Give a waiting call up. The transaction goes on, and the mark of its wait stays. -/
def abandon (s : Store) (tx : TxId) : Store :=
  match s.live.get? tx with
  | none => s
  | some t => s.put tx t.idle s.locks

/-- End a transaction without applying anything, and wake the calls that wait. One that has ended
stays ended. -/
def release (s : Store) (tx : TxId) : Store :=
  match s.live.get? tx with
  | none => s
  | some t =>
    { s with
      locks := s.locks.release tx t.held
      live := (s.live.erase tx).mapValues fun _ other => other.wake }

/-- A row after a delta, if that is a balance it may have. -/
def applied (account : Account) (row : AccountId) (delta : Decimal) : Except Refusal Account :=
  match account.balance.add? delta with
  | none => .error (.balanceOverflow row)
  | some next =>
    if next.isNegative then .error (.negativeBalance row next)
    else .ok { account with balance := next, version := account.version + 1 }

/-- The rows after all deltas, or the first objection. -/
def applyAll (accounts : Table AccountId Account) :
    List (AccountId × Decimal) → Except Refusal (Table AccountId Account)
  | [] => .ok accounts
  | (row, delta) :: rest =>
    match accounts.get? row with
    -- There is nothing to add to.
    | none => applyAll accounts rest
    | some account =>
      match applied account row delta with
      | .error e => .error e
      | .ok account => applyAll (accounts.insert row account) rest

/-- End a transaction and apply its deltas, all of them or none. A conflict that is due comes
before anything that the deltas may violate. -/
def commit (s : Store) (tx : TxId) : Except Refusal Unit × Store :=
  match s.live.get? tx with
  | none => (.error .ended, s)
  | some t =>
    match s.conflictsDue with
    -- A conflict that is due comes before a look at the deltas.
    | due + 1 => (.error .serialization, { s.release tx with conflictsDue := due })
    | 0 =>
      match applyAll s.accounts t.pending.entries with
      | .error e => (.error e, s.release tx)
      | .ok accounts => (.ok (), { s.release tx with accounts })

/-- The call of a transaction that waits. -/
def wait? (s : Store) (tx : TxId) : Option Wait := (s.live.get? tx).bind OpenTx.blocked

/-- The transaction has a call that waits. -/
def isBlocked (s : Store) (tx : TxId) : Bool := (s.wait? tx).isSome

/-- The transaction has not ended. -/
def isOpen (s : Store) (tx : TxId) : Bool := s.live.contains tx

/-- Make a request, or make it again. A transaction whose call waits makes no other, so to ask
again is to let that call look at its row. -/
def ask (s : Store) (tx : TxId) (r : Request) : Reply × Store :=
  if s.isBlocked tx then s.poll tx else s.request tx r

end Store

end RowLedger
