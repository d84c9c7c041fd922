import HotReload.CommandLine.Arguments
import HotReload.Host.Setup

/-!
# Running scripts from the command line

A run hosts a directory of scripts: it watches the init script and the further paths,
preloads, starts polling and waits until it is stopped. However it ends, the host is shut
down. A run that a command line asks for is stopped as soon as it waits.
-/
namespace HotReload.CommandLine

/-- How a program ends. -/
inductive ExitStatus where
  | normal
  | code (n : Nat)
  /-- A script ended the program with an argument. -/
  | argument (text : String)
  deriving Repr, DecidableEq

structure Outcome where
  status : ExitStatus
  output : String := ""
  /-- The lines for the error stream. -/
  complaints : List String := []
  deriving Repr, DecidableEq

/-- Preloads, starts and waits until it is stopped; meanwhile the poll loop and the pool go on. -/
def serveScripts (waiting : Act Unit) (directory : Path) (args : Arguments) : Act Unit := do
  if args.preloads then
    let _ ← World.preload World.host
  World.start
  World.enter ⟨.info, "scripts_running",
    [("path", .text directory.toText),
      ("scripts", .strings ((← get).registry.map fun (path, _) => path.toText))]⟩
  waiting

/-- Watches, serves the scripts and shuts down; answers how many scripts were loaded. -/
def hostScripts (waiting : Act Unit) (directory : Path) (initScript : String) (args : Arguments) :
    Act Nat := do
  World.watchPaths ((initScript :: args.watched).map Path.parse)
  let result ← World.attempt (fun _ => true) (serveScripts waiting directory args)
  let loaded := (← get).registry.length
  World.shutdown World.host
  World.liftExcept result
  return loaded

/-- What the command line says of a run. Failures that no program handles stay failures. -/
def outcomeOf : Except Failure Nat → Except Failure Outcome
  | .ok loaded =>
    .ok { status := .normal, output := "Scripts loaded at exit: " ++ toString loaded ++ "\n" }
  | .error (.raised "KeyboardInterrupt" _) =>
    .ok { status := .normal, output := "\nStopped by user\n" }
  | .error (.raised "SystemExit" text) => .ok { status := .argument text }
  | .error e => .error e

/-- What a run finds when it starts. -/
structure Surroundings where
  settings : Settings
  files : FileTree FileContent
  /-- Where the relative paths of files that scripts write and remove start. -/
  base : Path
  /-- How the observers of the system behave. -/
  observers : ObserverBehavior := {}
  /-- Whether the system has no thread left to start. -/
  lacksThreads : Bool := false

namespace Surroundings

/-- The script root of a run. -/
def directory (s : Surroundings) (args : Arguments) : Path :=
  args.path.getD s.settings.scripts.directory

def initScript (s : Surroundings) (args : Arguments) : String :=
  args.initScript.getD s.settings.scripts.initScript

/-- The host of a run that has not done anything yet. -/
def world (s : Surroundings) (args : Arguments) : World :=
  let world := World.create s.settings s.files
    { root := s.directory args, base := s.base, pollIntervalMs := args.pollIntervalMs }
  { world with watch := world.watch.map (·.behaving s.observers), lacksThreads := s.lacksThreads }

end Surroundings

/-- Hosts the scripts of a directory, if it is one. -/
def hostDirectory (s : Surroundings) (args : Arguments) : Except Failure Outcome × Journal :=
  let directory := s.directory args
  match s.files.isDirectory directory with
  | .error e => (.error e, {})
  | .ok false =>
    (.ok { status := .code 1
           output := "Error: Path is not a directory: " ++ directory.toText ++ "\n" }, {})
  | .ok true =>
    let (result, world) := hostScripts (pure ()) directory (s.initScript args) args (s.world args)
    (outcomeOf result, world.journal)

/-- Does what a command line asks of the program of that name. -/
def run (program : String) (s : Surroundings) (texts : List String) :
    Except Failure Outcome × Journal :=
  match Arguments.parse texts with
  | .error fault =>
    (.ok { status := .code 2
           complaints := usage program ++ [program ++ ": error: " ++ fault.message] }, {})
  | .ok none =>
    (.ok { status := .code 0, output := String.join ((help program).map (· ++ "\n")) }, {})
  | .ok (some args) => hostDirectory s args

end HotReload.CommandLine
