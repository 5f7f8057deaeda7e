import RowLedger.CommandLine
import Std.Time.Zoned

/-!
# The program

Reads the settings of the environment, lets the library decide what to do, and
does it: the log goes to its file, and to the screen if it is a log of text.

## Main definitions

* `main`: The program.
-/

namespace RowLedger

/-- The time that the log is written at. -/
def currentTime : IO LogTime := do
  let now := Std.Time.DateTime.ofTimestampWithZone (← Std.Time.Timestamp.now) .UTC
  pure ⟨now.year.toInt.toNat, now.month.val.toNat, now.day.val.toNat, now.hour.val.toNat,
    now.minute.val.toNat, now.second.val.toNat⟩

/-- The text at a place, if it can be read. -/
def readText? (place : String) : IO (Option String) := do
  try
    pure (some (← IO.FS.readFile place))
  catch _ => pure none

/-- Append to the file of a log and show on the screen what is to be shown. -/
def writeLog (settings : Settings) (run : ProgramRun) : IO Unit := do
  let now ← currentTime
  let name := (Rotation.ofWord settings.rotation).fileName settings.logFile now
  let written := fun (e : LogEntry) =>
    if settings.useJson then (e.timedJson now.render).render else e.timedLine now.render
  IO.FS.createDirAll settings.logDir
  let file ← IO.FS.Handle.mk (settings.logDir ++ "/" ++ name) .append
  for e in run.log do
    file.putStrLn (written e)
  for e in run.screen do
    IO.println (e.timedLine now.render)

end RowLedger

/-- The program, for its arguments. -/
def main (arguments : List String) : IO UInt32 := do
  let place := RowLedger.Settings.path (RowLedger.environmentOf arguments)
  let text ← RowLedger.readText? place
  let run := RowLedger.ProgramRun.ofArguments (fun _ => text) arguments
  match run.settings with
  | some settings => RowLedger.writeLog settings run
  | none => pure ()
  match run.breakdown with
  | some (.error message) => IO.eprintln ("Error: " ++ message)
  | some .crash => IO.eprintln "Addition overflowed"
  | none => pure ()
  pure run.exitCode
