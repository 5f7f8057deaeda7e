import RowLedger.Crew
import RowLedger.Crossing
import RowLedger.DriverError
import RowLedger.Settings

/-!
# The demonstration

Three things to see on one set of accounts. First a batch of transfers goes
around a ring of all accounts, all at once. Then callers make transfers beside
each other, with retries. Last, unless the settings say no, two transfers cross
each other and deadlock on purpose. Money only moves, so the total is the same
in the end; and with enough money in every account none of the transfers fails.

The accounts are kept in memory, unless the settings name a database. What is
at its address is not decided here: the run is told, and if it is a store that
works, the three things are done there in that store's own way.

## Main definitions

* `Breakdown`: How a run fails.
* `DemoRun`: What a run told the log, and how it ended.
* `DatabaseAnswer`: What is at the address of a database.
* `Demo.ring`: The batch around the ring.
* `Demo.transfersOf`: The transfers of one caller.
* `Demo.run`: The demonstration, under a schedule for its callers.
-/

namespace RowLedger

/-- How a run fails. -/
inductive Breakdown where
  | error (message : String)
  /-- The balances add up to more than an amount can be. Nothing catches that. -/
  | crash

/-- How a demonstration ended, and what it leaves. -/
structure DemoRun where
  bench : Bench
  /-- Why it failed, if it did. -/
  failure : Option Breakdown

/-- What is at the address of a database. -/
inductive DatabaseAnswer where
  /-- No connection can be made. -/
  | unreachable (e : DriverError)
  /-- A connection can be made, but the first query fails. -/
  | unhealthy (e : DriverError)
  /-- The store works, and the rest of the demonstration takes place in it. -/
  | ready (rest : Bench → DemoRun)

namespace Demo

/-- The accounts of a demonstration have the numbers from one on. -/
def ids (accounts : Nat) : List AccountId :=
  (List.range accounts).map fun i => ((i + 1 : Nat) : Int)

/-- What goes around the ring, over and over. -/
def ringAmounts : List UInt64 := [100, 50, 25, 75]

/-- A transfer from the account at one place to the account at another. -/
def between (source target : Nat) (amount : UInt64) : Transfer :=
  ⟨((source + 1 : Nat) : Int), ((target + 1 : Nat) : Int), .ofUInt64 amount⟩

/-- Every account pays the next one, and the last one pays the first. -/
def ring (accounts : Nat) : List Transfer :=
  (List.range accounts).map fun i =>
    between i ((i + 1) % accounts) ((ringAmounts[i % ringAmounts.length]?).getD 0)

/-- The transfer of a caller at a place of its list. Its two accounts move around the ring at
different speeds; where they meet there is no transfer. -/
def transferAt? (accounts caller place : Nat) : Option Transfer :=
  let source := (caller + place) % accounts
  let target := (caller + 2 * place + 1) % accounts
  if source = target then none else some (between source target (.ofNat (place % 10 + 1)))

/-- The transfers of one caller. -/
def transfersOf (accounts caller count : Nat) : List Transfer :=
  (List.range count).filterMap (transferAt? accounts caller)

/-- The store in which every account has the same balance. -/
def seeded (d : DemoSettings) : Store :=
  .ofBalances ((ids d.accounts.toNat).map fun id =>
    (id, .ofInt64 (.ofInt d.initialBalance)))

/-- The callers before their first move. -/
def crew (d : DemoSettings) (bench : Bench) : Crew :=
  ⟨bench, (List.range d.callers).map fun caller =>
    .ofTransfers (transfersOf d.accounts.toNat caller d.transfersPerCaller)⟩

def tell (b : Bench) (notices : List Notice) : Bench :=
  { b with service := b.service.tell notices }

/-- The batch around the ring. -/
def ringStage (d : DemoSettings) (b : Bench) : Except Failure Unit × Bench :=
  let (progress, service) := (Operation.batch (ring d.accounts.toNat)).perform b.service
  let b := { b with service }
  match progress with
  | .ended (.error e) => (.error e, b)
  | _ =>
    (.ok (), tell b (service.store.accounts.values.map fun a =>
      .balanceAfterBatch a.id a.balance))

/-- The callers beside each other. A schedule says how they begin; then they are left to
themselves. -/
def stressStage (schedule : List Nat) (backoff : Backoff) (d : DemoSettings) (b : Bench) :
    Nat × Bench :=
  let crew := ((crew d b).follow backoff schedule).finish backoff
  let failures := crew.failures
  (failures, tell crew.bench [.stressDone d.callers d.transfersPerCaller failures,
    .statistics (crew.bench.tally.summary "never")])

/-- What the log is told about the outcome of the crossing. -/
def crossingNotice : Except Failure Unit → Notice
  | .error e => if e.isConflict then .crossingConflict e else .crossingFailed e
  | .ok () => .crossingUnhindered

/-- The crossing, if it is wanted, between the first two accounts. -/
def crossingStage (s : SimulatorSettings) (b : Bench) : Bench :=
  if s.enabled then
    let (c, _) := Crossing.run 1 2 (.ofUInt64 10) (.ofUInt64 10) s.lockDelayMillis.toNat b.service
    tell { b with service := c.service } [crossingNotice c.outcome]
  else b

/-- The last look at the accounts, and at what the callers came to. -/
def audit (before : Decimal) (failures : Nat) (b : Bench) : DemoRun :=
  match b.service.store.total? with
  | none => ⟨b, some .crash⟩
  | some after =>
    let b := tell b [.totals before after]
    -- The total comes before the failures of the callers.
    if !before.sameAmount after then
      ⟨b, some (.error s!"Total balance changed: {before.render} -> {after.render}")⟩
    else if failures ≠ 0 then ⟨b, some (.error s!"{failures} stress transfers failed")⟩
    else ⟨b, none⟩

/-- The three stages on a store in memory. -/
def runInMemory (schedule : List Nat) (settings : Settings) (b : Bench) : DemoRun :=
  let d := settings.demo
  let b := tell { b with service := { b.service with store := seeded d } }
    [.storeReady "memory" d.accounts.toNat]
  match b.service.store.total? with
  | none => ⟨b, some .crash⟩
  | some before =>
    match ringStage d b with
    | (.error e, b) => ⟨b, some (.error e.message)⟩
    | (.ok (), b) =>
      let (failures, b) := stressStage schedule settings.backoff d b
      audit before failures (crossingStage settings.simulator b)

/-- The demonstration in a database, as far as it gets there. -/
def runInDatabase (d : DemoSettings) (b : Bench) : DatabaseAnswer → DemoRun
  | .unreachable e => ⟨b, some (.error e.toStoreFault.message)⟩
  | .unhealthy e => ⟨tell b [.databaseConnected], some (.error e.toStoreFault.message)⟩
  | .ready rest => rest (tell b [.databaseConnected, .storeReady "postgres" d.accounts.toNat])

/-- The demonstration of an environment. The first argument says what is at the address of a
database, for whoever asks for so many connections. -/
def run (database : String → UInt32 → DatabaseAnswer) (schedule : List Nat) (environment : String)
    (settings : Settings) : DemoRun :=
  let b := tell (.ofStore .empty) [.started environment]
  -- Nothing is asked of any store before this.
  if settings.demo.accounts < 2 then ⟨b, some (.error "demo.accounts must be at least 2")⟩
  else
    match settings.databaseUrl with
    | some address => runInDatabase settings.demo b (database address settings.maxConnections)
    | none => runInMemory schedule settings b

end Demo

end RowLedger
