import RowLedger.Demo
import RowLedger.Log

/-!
# The command line

The program runs the demonstration in an environment, which the arguments may
name. What it does is decided here in full, from the arguments, the texts of
the settings and what is at the addresses of databases: what the log shows,
where it is written, and how the program ends. Without settings there is no
log.

## Main definitions

* `environmentOf`: The environment that the arguments name.
* `ProgramRun`: What the program does.
* `ProgramRun.ofSurroundings`: What it does where it is run.
* `ProgramRun.ofArguments`: What it does for its arguments where there are no
  databases.
-/

namespace RowLedger

/-- The argument after the first option that has one after it. -/
def environmentOf : List String → String
  | option :: name :: rest =>
    -- An option without anything behind it is no option.
    if option = "--env" ∨ option = "-e" then name else environmentOf (name :: rest)
  | _ => "dev"

/-- What a program does. -/
structure ProgramRun where
  /-- There are none if they could not be had. -/
  settings : Option Settings
  /-- The entries that the log shows. -/
  log : List LogEntry
  /-- What went wrong, if anything did. -/
  breakdown : Option Breakdown

namespace ProgramRun

/-- What the program says about its failure. A crash is not told by the program itself. -/
def failure (r : ProgramRun) : Option String :=
  match r.breakdown with
  | some (.error message) => some message
  | _ => none

/-- Zero is for success. -/
def exitCode (r : ProgramRun) : UInt32 :=
  match r.breakdown with
  | none => 0
  | some (.error _) => 1
  | some .crash => 101

/-- A log of text is shown on the screen as well. -/
def screen (r : ProgramRun) : List LogEntry :=
  match r.settings with
  | none => []
  | some settings => if settings.useJson then [] else r.log

def filter (settings : Settings) : LogFilter :=
  ⟨.ofWord settings.logLevel, settings.traceRetries⟩

/-- What the program does, given what is at the addresses of databases and the texts of the settings
by their places. -/
def ofSurroundings (database : String → UInt32 → DatabaseAnswer) (text? : String → Option String)
    (arguments : List String) : ProgramRun :=
  let environment := environmentOf arguments
  match Settings.load text? environment with
  | .error e => ⟨none, [], some (.error e)⟩
  | .ok settings =>
    let run := Demo.run database [] environment settings
    let entries := run.bench.service.notices.map Notice.entry
    ⟨some settings, entries.filter (filter settings).shows, run.failure⟩

/-- The program has no client for databases, and takes no text for the address of one. -/
def ofArguments (text? : String → Option String) (arguments : List String) : ProgramRun :=
  ofSurroundings (fun _ _ => .unreachable (.configuration "relative URL without a base")) text?
    arguments

end ProgramRun

end RowLedger
