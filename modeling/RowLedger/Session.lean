import RowLedger.Ordered

/-!
# Sessions

Many callers of one store, told apart by names. A name belongs to a
transaction that somebody opened, or to an operation that has a transaction of
its own. A call that waits for a row is blocked under its name, and its name
can do nothing else meanwhile, except that the call can be given up.

After every step the blocked calls are asked again in the order in which they
first blocked, as often as that lets one of them finish. An operation that
gets one row and waits for another keeps its place. Each round that goes on
finishes at least one call, so there are at most as many rounds as blocked
calls and one more.

## Main definitions

* `SessionStep`: What a caller does.
* `SessionAnswer`: What the caller gets.
* `Session`: The store, the names and the blocked calls.
* `Session.step`, `Session.run`: One step, and a list of them.
* `Session.poll`: Ask the blocked calls again until none finishes.
-/

namespace RowLedger

/-- What is done inside an open transaction. -/
inductive TxCall where
  | query (row : AccountId)
  | update (row : AccountId) (delta : Decimal)
  | commit
  | rollback
  | transfer (t : Transfer)
  | batch (transfers : List Transfer)

inductive SessionStep where
  | start (name : String)
  | call (name : String) (call : TxCall)
  /-- End a transaction by an outcome; the name is free afterwards. -/
  | finish (name : String) (failure : Option Failure)
  | drop (name : String)
  | operation (name : String) (operation : Operation)
  /-- Give a blocked call up. -/
  | abort (name : String)
  | insert (id : AccountId) (balance : Decimal)
  | inject (conflicts : Nat)
  | balance (id : AccountId)
  | account (id : AccountId)
  | total
  | malformed

inductive SessionAnswer where
  | nothing
  | amount (a : Decimal)
  | account (a : Account)
  | fault (f : StoreFault)
  | failure (f : Failure)
  /-- The call ended without an answer. -/
  | crashed
  | blocked
  | dropped
  | aborted
  | busy
  | unknownName
  | badStep
  deriving DecidableEq

/-- The work of a call. What the store itself refuses is an answer, not a failure. -/
def TxCall.work : TxCall → Work SessionAnswer
  | .query row =>
    .request (.query row) fun
      | .ok balance => pure (.amount balance)
      | .error f => pure (.fault f)
  | .update row delta =>
    .request (.update row delta) fun
      | .ok _ => pure .nothing
      | .error f => pure (.fault f)
  | .commit =>
    .commit fun
      | .ok () => pure .nothing
      | .error f => pure (.fault f)
  | .rollback =>
    .rollback fun
      | .ok () => pure .nothing
      | .error f => pure (.fault f)
  | .transfer t => do
    Work.applyTransfer t
    pure .nothing
  | .batch transfers => do
    Work.applyTransfers transfers
    pure .nothing

/-- A call that waits for a row, and how it goes on. -/
structure BlockedCall where
  name : String
  tx : TxId
  /-- The transaction ends with the call. -/
  ownsTx : Bool
  request : Request
  next : Except StoreFault Decimal → Work SessionAnswer

structure Session where
  service : Service
  /-- The transactions that are open to calls. -/
  names : Table String TxId
  /-- Oldest first. -/
  blocked : List BlockedCall

/-- What is to be seen after a step. -/
structure SessionReport where
  answer : SessionAnswer
  store : Store
  /-- The calls that finished, in that order. -/
  woke : List (String × SessionAnswer)
  /-- The calls that are blocked still. -/
  blocked : List String

namespace Session

def ofStore (store : Store) : Session := ⟨.ofStore store, .empty, []⟩

def isBlocked (s : Session) (name : String) : Bool := s.blocked.any (·.name == name)

def isTaken (s : Session) (name : String) : Bool := s.names.contains name || s.isBlocked name

def answerOf : Except Failure SessionAnswer → SessionAnswer
  | .ok answer => answer
  | .error e => .failure e

/-- The transaction of a call that has ended, dropped if it was the call's own. -/
def close (ownsTx : Bool) (tx : TxId) (service : Service) : Service :=
  if ownsTx then service.drop tx else service

/-- Run the work of a call under a name, and block the call if it has to wait. -/
def launch (s : Session) (name : String) (tx : TxId) (ownsTx : Bool) (work : Work SessionAnswer) :
    SessionAnswer × Session :=
  match work.run tx s.service with
  | (.blocked request next, service) =>
    (.blocked, { s with service, blocked := s.blocked ++ [⟨name, tx, ownsTx, request, next⟩] })
  | (.ended outcome, service) =>
    (answerOf outcome, { s with service := close ownsTx tx service })
  | (.pausing .., service) => (.crashed, { s with service := close ownsTx tx service })
  | (.crashed, service) => (.crashed, { s with service := close ownsTx tx service })

/-- Ask each blocked call again, in order. -/
def pollOnce : List BlockedCall → Service →
    List (String × SessionAnswer) × List BlockedCall × Service
  | [], service => ([], [], service)
  | call :: rest, service =>
    match Work.resume call.tx call.request call.next service with
    | (.blocked request next, service) =>
      -- The call keeps its place, even if it waits for another row now.
      let (woke, left, service) := pollOnce rest service
      (woke, { call with request, next } :: left, service)
    | (progress, service) =>
      let answer := match progress with
        | .ended outcome => answerOf outcome
        | _ => .crashed
      -- What it held is free for the calls behind it.
      let (woke, left, service) := pollOnce rest (close call.ownsTx call.tx service)
      ((call.name, answer) :: woke, left, service)

/-- Ask all blocked calls again for a number of rounds, or until a round finishes none. -/
def pollRounds : Nat → List BlockedCall → Service →
    List (String × SessionAnswer) × List BlockedCall × Service
  | 0, calls, service => ([], calls, service)
  | rounds + 1, calls, service =>
    match pollOnce calls service with
    | ([], left, service) => ([], left, service)
    | (woke, left, service) =>
      let (more, left, service) := pollRounds rounds left service
      (woke ++ more, left, service)

/-- Ask the blocked calls again until none of them finishes. -/
def poll (s : Session) : List (String × SessionAnswer) × Session :=
  let (woke, blocked, service) := pollRounds (s.blocked.length + 1) s.blocked s.service
  (woke, { s with service, blocked })

/-- Start an operation under a name of its own. -/
def operate (s : Session) (name : String) : Operation → SessionAnswer × Session
  | .settled (.ok ()) => (.nothing, s)
  | .settled (.error e) => (.failure e, s)
  | .inTransaction body =>
    let (tx, service) := s.service.start
    launch { s with service } name tx true (do body; pure .nothing)

/-- Give up the blocked call of a name. Its transaction goes on, unless it was the call's own. -/
def abort (s : Session) (name : String) : SessionAnswer × Session :=
  match s.blocked.find? (·.name == name) with
  | none => (.badStep, s)
  | some call =>
    let service :=
      if call.ownsTx then s.service.drop call.tx else s.service.abandon call.tx
    (.aborted, { s with service, blocked := s.blocked.filter (·.name != name) })

/-- Do something with the transaction of a name, if it is not busy. -/
def withTx (s : Session) (name : String) (f : TxId → SessionAnswer × Session) :
    SessionAnswer × Session :=
  if s.isBlocked name then (.busy, s)
  else
    match s.names.get? name with
    | none => (.unknownName, s)
    | some tx => f tx

/-- What a step answers and does, before the blocked calls are asked again. -/
def act (s : Session) : SessionStep → SessionAnswer × Session
  | .start name =>
    if s.isTaken name then (.busy, s)
    else
      let (tx, service) := s.service.start
      (.nothing, { s with service, names := s.names.insert name tx })
  | .call name call => s.withTx name fun tx => s.launch name tx false call.work
  | .finish name failure =>
    s.withTx name fun tx =>
      -- The name is free, whatever comes of the end.
      let outcome := match failure with
        | none => .ok .nothing
        | some e => .error e
      launch { s with names := s.names.erase name } name tx true (Work.conclude outcome)
  | .drop name =>
    s.withTx name fun tx =>
      (.dropped, { s with service := s.service.drop tx, names := s.names.erase name })
  | .operation name operation =>
    if s.isTaken name then (.busy, s) else s.operate name operation
  | .abort name => s.abort name
  | .insert id balance =>
    (.nothing, { s with service := { s.service with store := s.service.store.insert id balance } })
  | .inject conflicts =>
    (.nothing, { s with service := { s.service with store := s.service.store.inject conflicts } })
  | .balance id =>
    match s.service.store.accounts.get? id with
    | none => (.nothing, s)
    | some account => (.amount account.balance, s)
  | .account id =>
    match s.service.store.accounts.get? id with
    | none => (.fault (.notFound id), s)
    | some account => (.account account, s)
  | .total =>
    match s.service.store.total? with
    | none => (.crashed, s)
    | some sum => (.amount sum, s)
  | .malformed => (.badStep, s)

def step (s : Session) (step : SessionStep) : SessionReport × Session :=
  let (answer, s) := s.act step
  let (woke, s) := s.poll
  (⟨answer, s.service.store, woke, s.blocked.map (·.name)⟩, s)

/-- The reports of a list of steps. -/
def run (s : Session) : List SessionStep → List SessionReport × Session
  | [] => ([], s)
  | first :: rest =>
    let (report, s) := s.step first
    let (reports, s) := run s rest
    (report :: reports, s)

end Session

end RowLedger
