import HotReload.Change.Debouncer
import HotReload.Path.Canonical
import HotReload.Text.Glob

/-!
# File events

What an observer reports, and the changes it stands for: files only, below the
watched root, and not ignored. A move is a deletion and a creation.
-/
namespace HotReload

inductive FileEventKind where
  | created
  | modified
  | deleted
  | moved
  /-- Reported, and no change. -/
  | other
  deriving Repr, DecidableEq

/-- The kind of event that a word names. -/
def FileEventKind.ofWord : String → FileEventKind
  | "created" => .created
  | "modified" => .modified
  | "deleted" => .deleted
  | "moved" => .moved
  | _ => .other

structure FileEvent where
  kind : FileEventKind
  source : Path
  target : Path := ⟨.relative, []⟩
  isDirectory : Bool := false
  deriving Repr

/-- Which events count: those below a root that no pattern ignores. -/
structure EventScope where
  root : Path
  /-- The location of the root. -/
  rootLocation : Path
  ignorePatterns : List String
  deriving Repr

namespace EventScope

/-- The names of a path, the leading slashes of an absolute one among them. -/
def namesOf (path : Path) : List String :=
  if path.isAbsolute then Path.anchorText path.anchor :: path.parts else path.parts

/-- Whether a pattern matches the name of the file or of a directory above it. -/
def ignores (patterns : List String) (path : Path) : Bool :=
  patterns.any fun pattern =>
    let glob := Glob.parse pattern
    glob.accepts path.name || (namesOf path).dropLast.any glob.accepts

/-- An observed path below the root; `resolve` finds the location of a path. -/
def relative? (resolve : Path → Option Path) (scope : EventScope) (path : Path) : Option Path :=
  match path.relativeTo? scope.root with
  | some below => some below
  | none => (resolve path).bind (·.relativeTo? scope.rootLocation)

def change? (resolve : Path → Option Path) (scope : EventScope) (kind : ChangeKind) (path : Path) :
    Option Change :=
  match scope.relative? resolve path with
  | some below => if ignores scope.ignorePatterns below then none else some ⟨below, kind⟩
  | none => none

/-- What an event reports before it is filtered. -/
def reports (event : FileEvent) : List (Path × ChangeKind) :=
  if event.isDirectory then []
  else
    match event.kind with
    | .created => [(event.source, .created)]
    | .modified => [(event.source, .modified)]
    | .deleted => [(event.source, .deleted)]
    | .moved => [(event.source, .deleted), (event.target, .created)]
    | .other => []

/-- The changes an event stands for. -/
def changes (resolve : Path → Option Path) (scope : EventScope) (event : FileEvent) : List Change :=
  (reports event).filterMap fun (path, kind) => scope.change? resolve kind path

end EventScope

end HotReload
