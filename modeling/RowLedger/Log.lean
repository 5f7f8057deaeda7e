import RowLedger.Digits
import RowLedger.Json.Basic
import RowLedger.Notice

/-!
# The log

Which entries the log shows, how it writes them, and the file it writes to. A
log has a verbosity, which lets entries through up to a level, and a switch of
its own for entries that trace single retries. An entry is a line of text or a
JSON object. A file that is rotated has the date in its name.

How entries get from the ledger into the file, and when, is not described; they
get there in the order in which they are told.

## Main definitions

* `Verbosity.ofWord`: The verbosity that a word stands for.
* `LogFilter`: What is shown.
* `LogEntry.timedLine`, `LogEntry.timedJson`: The two ways to write an entry.
* `Rotation.fileName`: The name of the file at a time.
-/

namespace RowLedger

/-- How many levels are shown, from the gravest on. -/
abbrev Verbosity := Nat

/-- The place of a level among the levels, from the gravest on. -/
def Level.rank : Level → Nat
  | .error => 1
  | .warn => 2
  | .info => 3
  | .debug => 4

/-- The verbosities by name, the smallest first. -/
def Verbosity.names : List String := ["off", "error", "warn", "info", "debug", "trace"]

/-- The verbosity of a name in any case, or of a number. A word without a meaning shows nothing. -/
def Verbosity.ofWord (word : String) : Verbosity :=
  match names.idxOf? (word.map Char.toLower) with
  | some place => place
  | none =>
    match readDigits? word.toList with
    | some n => if n < names.length then n else 0
    | none => 0

/-- What a log shows. -/
structure LogFilter where
  verbosity : Verbosity
  /-- Single retries are shown, whatever the verbosity. -/
  traces : Bool

def LogFilter.shows (f : LogFilter) (e : LogEntry) : Bool :=
  -- Traces do not ask for the verbosity.
  if e.traced then f.traces else decide (e.level.rank ≤ f.verbosity)

/-- A value in a line of text. -/
def FieldValue.render : FieldValue → String
  | .number n => toString n
  | .word s => "\"" ++ s ++ "\""
  | .text s => s

def FieldValue.toJson : FieldValue → Json
  | .number n => .whole n
  | .word s => .string s
  | .text s => .string s

namespace LogEntry

/-- Level, message and fields on one line. -/
def line (e : LogEntry) : String :=
  let field := fun (f : String × FieldValue) => " " ++ f.1 ++ "=" ++ f.2.render
  e.level.name ++ " " ++ e.message ++ String.join (e.fields.map field)

/-- The fields as members of an object. -/
def members (e : LogEntry) : List (String × Json) := e.fields.map fun f => (f.1, f.2.toJson)

/-- The line as a log keeps it: behind a time, with the levels flush right. -/
def timedLine (time : String) (e : LogEntry) : String :=
  time ++ String.ofList (List.replicate (6 - e.level.name.length) ' ') ++ e.line

/-- An object with the message as the first of the fields. -/
def timedJson (time : String) (e : LogEntry) : Json :=
  .object [("timestamp", .string time), ("level", .string e.level.name),
    ("fields", .object (("message", .string e.message) :: e.members))]

end LogEntry

/-- How often a log begins a new file. -/
inductive Rotation where
  | hourly
  | daily
  | never
  deriving DecidableEq

/-- A word without a meaning is never. -/
def Rotation.ofWord (word : String) : Rotation :=
  if word = "hourly" then .hourly else if word = "daily" then .daily else .never

/-- A second of a day. -/
structure LogTime where
  year : Nat
  month : Nat
  day : Nat
  hour : Nat
  minute : Nat
  second : Nat

namespace LogTime

/-- Year, month and day, joined by dashes. -/
def date (t : LogTime) : List Char :=
  digitsPadded 4 t.year ++ '-' :: digitsPadded 2 t.month ++ '-' :: digitsPadded 2 t.day

/-- Date and time of day. -/
def render (t : LogTime) : String :=
  String.ofList (t.date ++ 'T' :: digitsPadded 2 t.hour ++ ':' :: digitsPadded 2 t.minute ++
    ':' :: digitsPadded 2 t.second ++ ['Z'])

end LogTime

/-- What a rotation puts into the name of a file. -/
def Rotation.stamp (r : Rotation) (t : LogTime) : String :=
  match r with
  | .hourly => String.ofList (t.date ++ '-' :: digitsPadded 2 t.hour)
  | .daily | .never => String.ofList t.date

/-- The file that is written at a time. A log without a name is named by the time alone. -/
def Rotation.fileName (r : Rotation) (base : String) (t : LogTime) : String :=
  if base.isEmpty then r.stamp t
  else if r = .never then base
  else base ++ "." ++ r.stamp t

end RowLedger
