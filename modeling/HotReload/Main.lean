import HotReload.CommandLine.Run
import HotReload.FileTree.Edit
import HotReload.Log.Output

/-!
# The program

Hosts the script files that standard input describes, as a JSON list of objects with a
path and a body or a text, below the top directory. Settings come from the environment;
the log is printed, and then what the run has to say.
-/
namespace HotReload.Program

def sections : List Settings.Section :=
  [Settings.scriptSection, Settings.watcherSection, Settings.apiSection, Settings.loggingSection]

/-- The variables that settings are read from. -/
def variableNames : List String :=
  (["app_name", "app_version", "environment"]
    ++ sections.flatMap fun s => s.name :: s.fields.map (s.stem ++ ·)).map String.toUpper

def readEnvironment : IO Environment :=
  variableNames.filterMapM fun name => do
    return (← IO.getEnv name).map fun text => (name, text)

def top : Path := ⟨.root, []⟩

/-- The described files. -/
def filesOf (described : Value) : FileTree FileContent :=
  FileEdit.writeAll top { here := top } described.items

/-- The lines of the log that a run leaves. -/
def logLines (settings : Settings) (context : LogContext) (j : Journal) : List String :=
  let output := LogOutput.ofSettings settings.logging
  (j.log.filter output.writes).map (output.line settings context)

/-- The number with which the program ends, and what it says about that. -/
def statusOf : CommandLine.ExitStatus → UInt32 × List String
  | .normal => (0, [])
  | .code n => (n.toUInt32, [])
  | .argument text => (1, [text])

def complain (lines : List String) : IO Unit := lines.forM fun line => IO.eprintln line

def describeFailure (e : Failure) : String := e.kindName ++ ": " ++ e.message

/-- Runs under settings and answers the number with which the program ends. -/
def runWith (settings : Settings) (files : FileTree FileContent) (arguments : List String) :
    IO UInt32 := do
  let (result, journal) := CommandLine.run "hotreload" { settings, files, base := top } arguments
  let context : LogContext := ⟨toString (← IO.monoMsNow), "MainThread"⟩
  (logLines settings context journal).forM fun line => IO.println line
  match result with
  | .error e =>
    complain [describeFailure e]
    return 1
  | .ok outcome =>
    IO.print outcome.output
    let (status, said) := statusOf outcome.status
    complain (outcome.complaints ++ said)
    return status

/-- Reads what the program needs, and runs. -/
def run (arguments : List String) : IO UInt32 := do
  let text ← (← IO.getStdin).readToEnd
  match Settings.ofEnvironment (← readEnvironment) with
  | .error fault =>
    complain [fault.kindName ++ ": " ++ fault.message]
    return 1
  | .ok settings =>
    match Value.ofJson (if text.isEmpty then "[]" else text) with
    | .ok described => runWith settings (filesOf described) arguments
    | .error _ =>
      complain ["the description of the files is not JSON"]
      return 1

end HotReload.Program

def main (arguments : List String) : IO UInt32 := HotReload.Program.run arguments
