import HotReload.Change.Kind
import HotReload.Path.Basic

/-!
# Debounced changes

Changes are collected per path and released once the path has been quiet for the
delay. A path waits in the place of its first unreleased change; a later change of
the same path is folded into it and starts the delay again.
-/
namespace HotReload

/-- A path and what happened to it. -/
structure Change where
  path : Path
  kind : ChangeKind
  deriving Repr, DecidableEq

/-- A change that has not settled yet, with the time of its last event. -/
structure PendingChange extends Change where
  time : Float

structure Debouncer where
  /-- The quiet period in seconds. -/
  delay : Float
  pending : List PendingChange := []

namespace Debouncer

/-- Folds a change at time `now` into the waiting ones. -/
def insert (now : Float) (change : Change) : List PendingChange → List PendingChange
  | [] => [{ change with time := now }]
  | p :: rest =>
    if p.path = change.path then
      { path := p.path, kind := p.kind.coalesce change.kind, time := now } :: rest
    else p :: insert now change rest

/-- A change of a path that waits keeps its place; any other one goes to the end. -/
theorem map_path_insert (now : Float) (change : Change) (pending : List PendingChange) :
    (insert now change pending).map (·.path) =
      if change.path ∈ pending.map (·.path) then pending.map (·.path)
      else pending.map (·.path) ++ [change.path] := by
  induction pending with
  | nil => simp [insert]
  | cons p rest ih =>
    by_cases hp : p.path = change.path
    · simp [insert, hp]
    · grind [insert]

def add (d : Debouncer) (now : Float) (change : Change) : Debouncer :=
  { d with pending := insert now change d.pending }

/-- Whether a change has been quiet for the delay. -/
def isSettled (d : Debouncer) (now : Float) (p : PendingChange) : Bool :=
  d.delay ≤ now - p.time

/-- The settled changes, and the debouncer without them. -/
def drain (d : Debouncer) (now : Float) : List Change × Debouncer :=
  let (settled, waiting) := d.pending.partition (d.isSettled now)
  (settled.map (·.toChange), { d with pending := waiting })

/-- All changes, settled or not. -/
def flush (d : Debouncer) : List Change × Debouncer :=
  (d.pending.map (·.toChange), { d with pending := [] })

def clear (d : Debouncer) : Debouncer := { d with pending := [] }

def pendingPaths (d : Debouncer) : List Path := d.pending.map (·.path)

/-- The delay of so many milliseconds, in seconds. -/
def secondsOfMillis (ms : Int) : Float := Float.ofInt ms / 1000.0

end Debouncer

end HotReload
