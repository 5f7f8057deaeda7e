import RowLedger.Failure

/-!
# Notices

What the ledger tells its log. A notice is the thing that happened, with the
values it happened to; level, wording and the names of its fields are decided
here once. Whole numbers stay numbers, so a log that keeps types can keep them,
and words that stand for one of a few things are told apart from other text.
The notices about single retries are marked, because a log may leave them out
on their own.

## Main definitions

* `Notice`: What can be told.
* `LogEntry`: Level, message and fields.
* `Notice.entry`: The entry that tells a notice.
-/

namespace RowLedger

/-- Transactions are numbered from one in the order in which they begin. -/
abbrev TxId := Nat

inductive Level where
  | error
  | warn
  | info
  | debug
  deriving DecidableEq

def Level.name : Level → String
  | .error => "ERROR"
  | .warn => "WARN"
  | .info => "INFO"
  | .debug => "DEBUG"

inductive FieldValue where
  | number (n : Int)
  /-- A word of the program's own, which a line of text puts in quotes. -/
  | word (s : String)
  | text (s : String)
  deriving DecidableEq

structure LogEntry where
  level : Level
  message : String
  fields : List (String × FieldValue)
  /-- The entry traces a single retry. -/
  traced : Bool
  deriving DecidableEq

inductive Notice where
  | cycleFound (tx : TxId) (account : AccountId) (holder : TxId)
  | balanceOverflow (account : AccountId) (balance delta : Decimal)
  | fundsMissing (account : AccountId) (balance delta : Decimal)
  | transferDone (transfer : Transfer)
  | batchDone (transfers : Nat)
  | rollbackFailed (fault : StoreFault) (cause : Failure)
  | retrySucceeded (store : String) (attempts : Nat)
  | retriesUsedUp (store : String) (attempts : Nat) (failure : Failure)
  | backingOff (store : String) (attempt : Nat) (wait : Duration) (failure : Failure)
  | resourceBusy (resource : String) (requested : Nat)
  | crossingDone (store : String) (forward backward : Option Failure)
  | started (environment : String)
  | databaseConnected
  | storeReady (store : String) (accounts : Nat)
  | balanceAfterBatch (account : AccountId) (balance : Decimal)
  | transferFailed (caller : Nat) (failure : Failure)
  | stressDone (callers transfersPerCaller failures : Nat)
  | statistics (summary : String)
  | crossingConflict (failure : Failure)
  | crossingFailed (failure : Failure)
  | crossingUnhindered
  | totals (before after : Decimal)
  deriving DecidableEq

/-- The code of an optional failure, as a report of an optional text. -/
def optionalCode : Option Failure → String
  | none => "None"
  | some f => "Some(\"" ++ f.code ++ "\")"

namespace Notice

def rejection (message : String) (account : AccountId) (balance delta : Decimal) :
    LogEntry :=
  ⟨.warn, message, [("account_id", .number account), ("balance", .text balance.render),
    ("delta", .text delta.render)], false⟩

/-- Level, wording and fields of a notice. -/
def entry : Notice → LogEntry
  | .cycleFound tx account holder =>
    ⟨.debug, "Wait-for cycle detected, aborting requester",
      [("tx", .number tx), ("account_id", .number account), ("holder", .number holder)], false⟩
  | .balanceOverflow account balance delta =>
    rejection "Transfer rejected: balance overflow" account balance delta
  | .fundsMissing account balance delta =>
    rejection "Transfer rejected: insufficient funds" account balance delta
  | .transferDone t =>
    ⟨.debug, "Ordered transfer committed", [("from_id", .number t.source),
      ("to_id", .number t.target), ("amount", .text t.amount.render)], false⟩
  | .batchDone n => ⟨.debug, "Ordered batch committed", [("transfers", .number n)], false⟩
  | .rollbackFailed fault cause =>
    ⟨.warn, "Rollback failed", [("error", .text fault.message),
      ("original", .text cause.message)], false⟩
  | .retrySucceeded store attempts =>
    ⟨.debug, "Transaction succeeded after retry", [("store", .word store),
      ("attempts", .number attempts)], false⟩
  | .retriesUsedUp store attempts failure =>
    ⟨.warn, "Conflict retries exhausted", [("store", .word store),
      ("attempts", .number attempts), ("error", .text failure.message)], false⟩
  | .backingOff store attempt wait failure =>
    ⟨.debug, "Conflict detected, backing off", [("store", .word store),
      ("attempt", .number attempt), ("delay_us", .number wait.toMicros),
      ("error", .text failure.message)], true⟩
  | .resourceBusy resource requested =>
    ⟨.debug, "Resource already locked", [("resource", .text resource),
      ("requested", .number requested)], false⟩
  | .crossingDone store forward backward =>
    ⟨.info, "Classic deadlock simulation finished", [("store", .word store),
      ("forward", .text (optionalCode forward)), ("backward", .text (optionalCode backward))],
      false⟩
  | .started environment =>
    ⟨.info, s!"Starting ledger_deadlock demo in {environment} mode", [], false⟩
  | .databaseConnected => ⟨.info, "PostgreSQL connection pool established", [], false⟩
  | .storeReady store accounts =>
    ⟨.info, "Store ready", [("store", .word store), ("accounts", .number accounts)], false⟩
  | .balanceAfterBatch account balance =>
    ⟨.info, "Balance after batch", [("account_id", .number account),
      ("balance", .text balance.render)], false⟩
  | .transferFailed caller failure =>
    ⟨.error, "Transfer failed", [("caller", .number caller), ("code", .word failure.code),
      ("error", .text failure.message)], false⟩
  | .stressDone callers transfers failures =>
    ⟨.info, "Stress scenario finished", [("callers", .number callers),
      ("transfers_per_caller", .number transfers), ("failures", .number failures)], false⟩
  | .statistics summary => ⟨.info, summary, [], false⟩
  | .crossingConflict failure =>
    ⟨.info, "Store detected the inverse-order deadlock", [("error", .text failure.message)],
      false⟩
  | .crossingFailed failure =>
    ⟨.warn, "Simulation failed without a conflict", [("error", .text failure.message)], false⟩
  | .crossingUnhindered => ⟨.warn, "Simulation completed without a deadlock", [], false⟩
  | .totals before after =>
    ⟨.info, "Total balance", [("before", .text before.render), ("after", .text after.render)],
      false⟩

end Notice

end RowLedger
