import HotReload.Claim.Count
import HotReload.Export.Registry
import HotReload.FileTree.Basic
import HotReload.Host.Trace
import HotReload.Plan.Passes
import HotReload.Script.Basic
import HotReload.Watch.Directory
import HotReload.Watch.Scripted

/-!
# The world of a script host

Everything that a script host and its scripts can see and change, and the operations
on it. An operation may fail; what it did before it failed stays done.
-/
namespace HotReload

/-- The variables of a script. -/
abbrev Namespace := List (String × Value)

/-- The script instances to run and those to terminate after them, by number. -/
structure Commit where
  toRun : List Nat
  toTerminate : List Nat
  deriving Repr, DecidableEq, Inhabited

/-- Where the commits of cycles are run. -/
inductive Executor where
  /-- At once, by whoever reconciles. -/
  | inline
  /-- At once, unless told to refuse. -/
  | refusable (refusal : Option Failure)
  /-- Later, when told to. -/
  | queue
  /-- Later, in order, on a thread of its own. -/
  | pool (isClosed : Bool)
  /-- Later, in order, by an event loop. -/
  | loop (isClosed : Bool)

/-- Where the claims of scripts go. -/
inductive ClaimTarget where
  /-- They are counted. -/
  | counted
  /-- They are only recorded, and refused by kind. -/
  | recorded (refusesWatch refusesUnwatch : Bool)

inductive Watch where
  | scripted (w : ScriptedWatch)
  | directory (w : DirectoryWatch)

/-- What the engine keeps: the variables of instances whose bodies completed, and for
each path the instance whose body completed last. -/
structure Engine where
  namespaces : List (Nat × Namespace) := []
  latest : List (Path × Nat) := []

namespace Engine

def keep (path : Path) (script : Nat) (ns : Namespace) (e : Engine) : Engine where
  namespaces := e.namespaces.filter (·.1 ≠ script) ++ [(script, ns)]
  latest := Registry.register path script e.latest

/-- Drops what is kept for one instance. -/
def release (path : Path) (script : Nat) (e : Engine) : Engine where
  namespaces := e.namespaces.filter (·.1 ≠ script)
  latest := Registry.unregister path script e.latest

/-- The variables of the instance of a path whose body completed last. -/
def namespace? (e : Engine) (path : Path) : Option Namespace :=
  (Registry.get? e.latest path).bind fun script =>
    (e.namespaces.find? (·.1 = script)).map (·.2)

def contextCount (e : Engine) : Nat := e.namespaces.length

end Engine

structure World where
  /-- The script root. -/
  root : Path
  /-- Where the relative paths of files that scripts write and remove start. -/
  base : Path
  files : FileTree FileContent
  /-- Every instance ever made, by number. -/
  scripts : List Script := []
  registry : Registry Nat := []
  claims : ClaimCounts := []
  claimTarget : ClaimTarget := .counted
  /-- What the operator watches. -/
  operator : ScopedClaims := {}
  exports : List ExportRegistry := [{}]
  engine : Engine := {}
  watch : Option Watch := none
  watchStarted : Bool := false
  executor : Executor := .inline
  /-- Commits handed over and not yet run. -/
  tasks : List Commit := []
  /-- Whether the host was shut down. -/
  isClosed : Bool := false
  /-- Whether the poll loop was started and not stopped. -/
  isPolling : Bool := false
  /-- Whether no thread can be started. -/
  lacksThreads : Bool := false
  /-- Whether the poll loop has a thread that could not be started. -/
  isStranded : Bool := false
  /-- Milliseconds between rounds of the poll loop. -/
  pollIntervalMs : Int := 1000
  preloadMaxCycles : Int := 64
  bindings : List (String × Value) := []
  /-- The name of the thread that is running. -/
  thread : String := "MainThread"
  poolThread : String := "script-sync_0"
  /-- Seconds on the clock that settles changes. -/
  now : Float := 100.0
  /-- Paths whose contexts fail to be released. -/
  releaseFaults : List Path := []
  /-- Keys of actions that happen once. -/
  met : List String := []
  journal : Journal := {}

/-- Operations of the host: a failure keeps what was done before it. -/
abbrev Act := ExceptT Failure (StateM World)

namespace World

def record (event : TraceEvent) : Act Unit :=
  modify fun w => { w with journal := w.journal.record event }

def enter (entry : LogEntry) : Act Unit :=
  modify fun w => { w with journal := w.journal.enter entry }

def log (component : String) (level : LogLevel) (event : String) (fields : List (String × Value)) :
    Act Unit :=
  enter (.ofComponent component level event fields)

/-- Runs an operation and answers what it raised if `handles` says so. -/
def attempt {α : Type} (handles : Failure → Bool) (action : Act α) : Act (Except Failure α) :=
  fun w =>
    match action w with
    | (.ok x, w) => (.ok (.ok x), w)
    | (.error e, w) => (if handles e then .ok (.error e) else .error e, w)

def liftExcept {α : Type} : Except Failure α → Act α
  | .ok x => pure x
  | .error e => throw e

def rootText (w : World) : String := w.root.toText

/-- The canonical form of a path. -/
def canonical (w : World) (path : Path) : Path := Path.canonical w.files.resolve? w.root path

/-- What finding the canonical form raises. -/
def circle? (w : World) (path : Path) : Option Failure := w.files.circleUnder? w.root path

/-- The canonical form of a path, if it can be found. -/
def normalize (w : World) (path : Path) : Except Failure Path :=
  match w.circle? path with
  | some e => .error e
  | none => .ok (w.canonical path)

/-- What the first of the paths raises whose canonical form cannot be found. -/
def circleAmong? (w : World) (paths : List Path) : Option Failure := paths.findSome? w.circle?

def normalizeAll (w : World) (paths : List Path) : Except Failure (List Path) :=
  match w.circleAmong? paths with
  | some e => .error e
  | none => .ok (paths.map w.canonical)

def canonicalText (w : World) (path : String) : Path := w.canonical (Path.parse path)

/-- Where the file of a script is. -/
def fileOf (w : World) (path : Path) : Path := w.root.join path

def modified? (w : World) (path : Path) : Except Failure (Option Float) :=
  w.files.modified? (w.fileOf path)

def script? (w : World) (n : Nat) : Option Script := w.scripts[n]?

def updateScript (n : Nat) (f : Script → Script) : Act Unit :=
  modify fun w => { w with scripts := w.scripts.modify n f }

/-- The instance of a number; every number that is handed out has one. -/
def script (n : Nat) : Act Script := do
  match (← get).script? n with
  | some s => return s
  | none => throw (.raised "LookupError" "no such script")

/-- The dependencies that the registered instances declared. -/
def dependencyTable (w : World) : DependencyTable :=
  w.registry.map fun (path, n) => (path, (w.script? n).elim [] (·.dependencies))

/-- Makes an instance and answers its number. -/
def newScript (path : Path) : Act Nat := do
  let w ← get
  let modified ← liftExcept (w.modified? path)
  set { w with
    scripts := w.scripts ++ [{ Script.create path modified with bindings := w.bindings }] }
  return w.scripts.length

/-- Runs an operation of a directory watch. -/
def watching {α : Type} (watch : DirectoryWatch) (action : Watching α) : Act α := fun w =>
  let (result, run) := action { watch }
  (result, { w with watch := some (.directory run.watch), journal := w.journal.append run.journal })

/-- Runs an operation of a scripted watch. -/
def scripted {α : Type} (watch : ScriptedWatch)
    (action : ScriptedWatch → Except Failure α × ScriptedWatch) : Act α := fun w =>
  let (result, watch) := action watch
  (result, { w with watch := some (.scripted watch) })

end World

end HotReload
