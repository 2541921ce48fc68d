import EntityRules.CommandLine.Run
import EntityRules.Document.Flow
import EntityRules.LogLine
import EntityRules.Settings.Configuration
import Std.Time.DateTime.Timestamp

/-! The program: it reads the environment, the files and the clock, and runs the command. -/

namespace EntityRules.CommandLine

/-- What the program tells about its use. -/
def usage : String :=
  "usage: entity-rules (evaluate RULES STATE | query RULES STATE [options] | graph RULES [options])"

/-- The environment variables of settings. -/
def readEnvironment : IO (Members String) :=
  Configuration.variableNames.filterMapM fun name => do
    return (← IO.getEnv name).map fun text => (name, text)

/-- The text of a file, or why it cannot be had. -/
def readText (file : String) : IO (Except FileTrouble String) := do
  try return .ok (← IO.FS.readFile file)
  catch
    | .noFileOrDirectory .. => return .error .absent
    | .inappropriateType .. => return .error .throughFile
    | _ => return .error .unreadable

/-- The texts of the files of a command line, by name. -/
def readTexts (arguments : List String) : IO (Members (Except FileTrouble String)) :=
  match Command.read arguments with
  | .error _ => return []
  | .ok command => command.files.mapM fun file => do return (file, ← readText file)

/-- The time of day; the first moment of 1970 stands for one that has no name. -/
def readClock : IO Moment := do
  let seconds := (← Std.Time.Timestamp.now).toSecondsSinceUnixEpoch.val
  return (Moment.ofCount seconds).toOption.getD ⟨⟨1970, 1, 1, 0, 0, 0, 0, some 0⟩, by decide⟩

def print (milliseconds : String) (ending : Ending) : IO UInt32 := do
  match ending with
  | .report r =>
    for event in r.logged do
      if let some line := LogLine.render? false (LogLine.publicMembers event) then
        IO.eprintln line
    for display in r.shown do
      for line in display.lines milliseconds do
        IO.println (String.ofList (Text.joinPairs line.toList))
    return UInt32.ofNat r.code
  | .stop why =>
    IO.eprintln usage
    return UInt32.ofNat why.code
  | .crash _ =>
    IO.eprintln "the documents or options cannot be used"
    return 1

def runProgram (arguments : List String) : IO UInt32 := do
  match Configuration.readSettings (← readEnvironment) with
  | .error _ =>
    IO.eprintln "the settings in the environment cannot be used"
    return 1
  | .ok settings =>
    let texts ← readTexts arguments
    let text (file : String) := (Members.get? texts file).getD (.error .absent)
    let now ← readClock
    let seed ← IO.rand 0 (Nat.pow 2 31 - 1)
    let evaluator : Evaluator := { source := { supply := .generated (mkStdGen seed) } }
    let start ← IO.monoNanosNow
    let ending ← IO.lazyPure fun _ =>
      Command.runLine { settings, evaluator, text, yaml := Flow.read, now } arguments
    let stop ← IO.monoNanosNow
    print (Number.fixed 2 ((stop - start).toFloat / 1e6)) ending

end EntityRules.CommandLine

def main (arguments : List String) : IO UInt32 :=
  EntityRules.CommandLine.runProgram arguments
