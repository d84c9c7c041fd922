import HotReload.Claim.Scoped
import HotReload.Resource.Registry
import HotReload.Value.Basic

/-!
# Script instances

One loaded script: what it depends on, what it claims and what it allocated. A reload
makes a new instance; an instance runs at most once and is terminated at most once.
-/
namespace HotReload

inductive ScriptState where
  | created
  | running
  | terminating
  | terminated
  deriving Repr, DecidableEq, Inhabited

def ScriptState.word : ScriptState → String
  | .created => "created"
  | .running => "running"
  | .terminating => "terminating"
  | .terminated => "terminated"

structure Script where
  path : Path
  state : ScriptState := .created
  /-- What its body raised. -/
  error : Option Failure := none
  /-- The paths it depends on, its own among them. -/
  dependencies : List Path
  /-- The newest modification time among its dependencies. -/
  lastChange : Float
  claims : ScopedClaims := {}
  resources : ResourceRegistry := {}
  /-- Whether its body was started, so that the engine holds a context for it. -/
  hasContext : Bool := false
  /-- Which export registry it shares. -/
  exports : Nat := 0
  bindings : List (String × Value) := []

namespace Script

/-- A new instance; a file without a modification time counts as never changed. -/
def create (path : Path) (modified : Option Float) : Script where
  path
  dependencies := [path]
  lastChange := modified.getD 0.0

def name (s : Script) : String := s.path.stem

def isOver (s : Script) : Bool := s.state = .terminating || s.state = .terminated

def dependsOn (s : Script) (path : Path) : Bool := s.dependencies.contains path

/-- Adds a dependency, with the time its file was last modified. -/
def addDependency (s : Script) (path : Path) (modified : Option Float) : Script :=
  { s with
    dependencies := if path ∈ s.dependencies then s.dependencies else s.dependencies ++ [path]
    lastChange := match modified with
      | some time => if time > s.lastChange then time else s.lastChange
      | none => s.lastChange }

/-- Texts in order of their characters. -/
def sorted (texts : List String) : List String := texts.mergeSort fun a b => a ≤ b

/-- The summary of an instance. -/
def describe (s : Script) : List (String × Value) :=
  [("name", .text s.name), ("path", .text s.path.toText), ("state", .text s.state.word),
    ("dependencies", .strings (sorted (s.dependencies.map (·.toText)))),
    ("last_dependency_change", .float s.lastChange),
    ("error", s.error.elim .null fun e => .text e.message),
    ("watching", .strings (s.claims.paths.map (·.toText)))]

/-- An instance as a literal. -/
def literal (s : Script) : String :=
  "Script(path=" ++ Text.quote s.path.toText ++ ", state=" ++ s.state.word ++ ")"

end Script

end HotReload
