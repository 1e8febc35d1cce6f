import Agenda.Command.Run
import Agenda.Datum.Flow
import Std.Time

/-! # The program

    Reads the settings and the snapshot that the arguments ask for, runs the command, and
    prints its response. -/

namespace Agenda.Main

/-- A text as the system takes it. -/
def path (p : Path) : String := String.ofList p.write

/-- What stands at a path. -/
def readFile (p : Path) : IO StoredFile := do
  try
    let contents ← IO.FS.readFile (path p)
    return (Datum.Flow.read? contents.toList).elim .malformed .holding
  catch
    | .noFileOrDirectory .. => return .absent
    | .inappropriateType .. => return .directory
    | _ => return .malformed

/-- Home directories: only one's own is known. -/
def homes (home : Option String) : Path.Homes := fun user =>
  if user = [] then home.map fun h => Path.ofText h.toList else none

/-- The path of the settings: the one in the environment, or a file in the home directory. -/
def settingsPath (homes : Path.Homes) (given : Option String) : Path :=
  let own := Path.ofText "~/.taskcore_config.yaml".toList
  let path := match Text.trim ((given.getD "").toList) with
    | [] => own
    | t => Path.ofText t
  match path.expandHome homes with
  | .ok p => p
  | .error _ => path

/-- What the clock shows. -/
def clock : IO Moment := do
  let now ← Std.Time.PlainDateTime.now
  let day := (Day.ofDate? now.year.toInt.toNat now.month.val.toNat now.day.val.toNat).getD default
  return (Moment.ofClock? day now.hour.val.toNat now.minute.val.toNat now.second.val.toNat
    (now.nanosecond.val.toNat / 1000) none).getD (Moment.midnight day)

/-- The universal time of an answer. -/
def timestamp : IO Text := do
  let t := (← Std.Time.Timestamp.now).toNanosecondsSinceUnixEpoch.val / 1000
  let epoch := ((Day.ofDate? 1970 1 1).getD default).ordinal
  let micros := t.toNat
  let day := (Day.ofOrdinal? (epoch + micros / dayLength : Nat)).getD default
  let s := micros % dayLength / 1000000
  let m := Moment.ofClock? day (s / 3600) (s / 60 % 60) (s % 60) (micros % 1000000) (some 0)
  return (m.getD (Moment.midnight day)).write 'T'

/-- The environment of a call: of all snapshots only the one that it asks for is read. -/
def environment (call : Except Command.Exit Command.Call) : IO Command.Environment := do
  let homes := homes (← IO.getEnv "HOME")
  let settings ← readFile (settingsPath homes (← IO.getEnv "TASKCORE_CONFIG"))
  let now ← clock
  let env : Command.Environment :=
    { settings, fileAt := fun _ => .absent, homes, today := now.day, now }
  match call with
  | .ok (.invoke i) =>
    match Command.snapshotPath env i.snapshot with
    | .ok p =>
      let file ← readFile p
      return { env with fileAt := fun q => if q = p then file else .absent }
    | .error _ => return env
  | _ => return env

/-- How the program is called. -/
def usage : String :=
  "usage: tasks [-h] [--version] [--verbose] COMMAND ...\n\ncommands: " ++
    String.ofList (Text.join ", ".toList (Command.commands.map Command.CommandSpec.name))

/-- Print what the program comes to. -/
def report : Command.Outcome → IO Unit
  | .help | .noCommand => IO.println usage
  | .version => IO.println "0.0.0"
  | .refused => IO.eprintln usage
  | .answered r => do
    let body := r.entries (some (← timestamp))
    IO.println (String.ofList (Datum.Flow.write 0 (.map body)))

/-- The wording of an error that no command answers for. -/
def describe : Command.Breakdown → String
  | .outOfCalendar => "date value out of range"
  | .infiniteInterval => "the review interval is infinite"
  | .statusNotText => "the status of a project is not a text"
  | .fineOffset => "the distance from universal time is finer than a minute"
  | .wholeDay => "a day stands where a time of day is needed"
  | .unknownHome => "could not determine the home directory"
  | .longInteger e => String.ofList e.message

end Agenda.Main

open Agenda in
/-- Run the program. -/
def main (args : List String) : IO UInt32 := do
  let texts := args.map String.toList
  let env ← Main.environment (Command.Call.read texts)
  match Command.run env texts with
  | .ok outcome =>
    Main.report outcome
    return UInt32.ofNat outcome.exitCode
  | .error b =>
    IO.eprintln (Main.describe b)
    return 1
