import RowLedger.Backoff
import RowLedger.Yaml.Value

/-!
# Settings

What a deployment may choose: its log, its database, how conflicts are retried,
and the two demonstrations. Settings are read from a YAML text with one
mapping. A key that nobody knows is ignored; a known key may come once; and the
keys of the log have to come. A section that is given at all has to have all of
its keys, and one that is left out has its defaults.

## Main definitions

* `Settings`: All choices.
* `Settings.ofYaml?`: The settings that a text describes.
* `Settings.backoff`: How conflicts are retried.
* `Settings.load`: The settings of an environment.
-/

namespace RowLedger

structure RetrySettings where
  retries : UInt32
  baseMillis : UInt64
  maxMillis : UInt64
  jitter : Binary64

structure SimulatorSettings where
  enabled : Bool
  lockDelayMillis : UInt64

structure DemoSettings where
  /-- Accounts are numbered from one. -/
  accounts : Int
  initialBalance : Int
  callers : Nat
  transfersPerCaller : Nat

structure Settings where
  logLevel : String
  logDir : String
  logFile : String
  useJson : Bool
  rotation : String
  /-- Single retries are logged as well. -/
  traceRetries : Bool
  /-- The address of a database; without one, the accounts are kept in memory. -/
  databaseUrl : Option String
  maxConnections : UInt32
  retry : RetrySettings
  simulator : SimulatorSettings
  demo : DemoSettings

/-- Five retries from 10 ms up to 5 s, a quarter up or down. -/
def RetrySettings.default : RetrySettings := ⟨5, 10, 5000, Backoff.default.jitter⟩

def SimulatorSettings.default : SimulatorSettings := ⟨true, 50⟩

def DemoSettings.default : DemoSettings := ⟨4, 1000, 20, 5⟩

open Yaml (Node Document)

/-- The entries of a mapping under known keys. A known key may come once, and every key has to be
a scalar. -/
def knownEntries? (d : Document) (known : List String) :
    List (Node × Node) → Option (List (String × Node))
  | [] => some []
  | (key, value) :: rest => do
    let name ← (d.resolve key).text?
    let others ← knownEntries? d known rest
    -- Only what is known may not be repeated.
    if !known.contains name then pure others
    else if (others.lookup name).isSome then none
    else pure ((name, d.resolve value) :: others)

/-- The known entries of a node that is a mapping. -/
def Yaml.Node.known? (d : Document) (known : List String) : Node → Option (List (String × Node))
  | .mapping _ entries => knownEntries? d known entries
  | _ => none

/-- What a key has to be given for, and what its value is read as. -/
def required? {α : Type} (entries : List (String × Node)) (name : String)
    (read : Node → Option α) : Option α :=
  entries.lookup name >>= read

/-- What a key may be given for. -/
def optional? {α : Type} (entries : List (String × Node)) (name : String) (fallback : α)
    (read : Node → Option α) : Option α :=
  match entries.lookup name with
  | none => some fallback
  | some node => read node

def word32? (node : Node) : Option UInt32 := (node.natural? (2 ^ 32)).map UInt32.ofNat

def word64? (node : Node) : Option UInt64 := (node.natural? (2 ^ 64)).map UInt64.ofNat

def RetrySettings.ofNode? (d : Document) (node : Node) : Option RetrySettings := do
  let entries ← node.known? d ["max_retries", "base_delay_ms", "max_delay_ms", "jitter_ratio"]
  pure ⟨← required? entries "max_retries" word32?, ← required? entries "base_delay_ms" word64?,
    ← required? entries "max_delay_ms" word64?, ← required? entries "jitter_ratio" Node.fraction?⟩

def SimulatorSettings.ofNode? (d : Document) (node : Node) : Option SimulatorSettings := do
  let entries ← node.known? d ["enabled", "lock_delay_ms"]
  pure ⟨← required? entries "enabled" Node.flag?, ← required? entries "lock_delay_ms" word64?⟩

def DemoSettings.ofNode? (d : Document) (node : Node) : Option DemoSettings := do
  let entries ← node.known? d ["accounts", "initial_balance", "callers", "transfers_per_caller"]
  let count := Node.natural? (2 ^ 64)
  pure ⟨← required? entries "accounts" Node.integer?,
    ← required? entries "initial_balance" Node.integer?,
    ← required? entries "callers" count, ← required? entries "transfers_per_caller" count⟩

namespace Settings

def keys : List String :=
  ["log_level", "log_dir", "log_file", "use_json", "rotation", "enable_tracing", "postgres_url",
    "max_connections", "retry", "simulator", "demo"]

def ofDocument? (d : Document) : Option Settings := do
  let entries ← (d.resolve d.root).known? d keys
  pure {
    logLevel := ← required? entries "log_level" Node.text?
    logDir := ← required? entries "log_dir" Node.text?
    logFile := ← required? entries "log_file" Node.text?
    useJson := ← required? entries "use_json" Node.flag?
    rotation := ← required? entries "rotation" Node.text?
    traceRetries := ← required? entries "enable_tracing" Node.flag?
    databaseUrl := ← optional? entries "postgres_url" none Node.optionalText?
    maxConnections := ← optional? entries "max_connections" 50 word32?
    retry := ← optional? entries "retry" .default (RetrySettings.ofNode? d)
    simulator := ← optional? entries "simulator" .default (SimulatorSettings.ofNode? d)
    demo := ← optional? entries "demo" .default (DemoSettings.ofNode? d) }

/-- The settings that a text describes. -/
def ofYaml? (text : String) : Option Settings := Yaml.Document.read? text >>= ofDocument?

/-- How conflicts are retried. The jitter is cut to a ratio. -/
def backoff (s : Settings) : Backoff :=
  Backoff.withJitter
    { retries := s.retry.retries.toNat
      base := .ofMillis s.retry.baseMillis
      cap := .ofMillis s.retry.maxMillis
      jitter := s.retry.jitter } s.retry.jitter

/-- The place of the settings of an environment. -/
def path (environment : String) : String := "config/" ++ environment ++ ".yaml"

/-- The settings of an environment, given the texts by their places, or what is wrong. -/
def load (text? : String → Option String) (environment : String) : Except String Settings :=
  match text? (path environment) with
  | none => .error ("Failed to read config file: " ++ path environment)
  | some text =>
    match ofYaml? text with
    | none => .error ("Failed to parse " ++ path environment)
    | some settings => .ok settings

end Settings

end RowLedger
