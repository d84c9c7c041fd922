import HotReload.Path.Basic

/-!
# Reload closure

A changed file reloads whatever depends on it, and what depends on that in turn. The
walk goes breadth-first over the dependencies that the registered scripts declared; a
path is met at most once, so cycles end it.
-/
namespace HotReload

/-- The registered scripts with the paths they depend on, in registration order. -/
abbrev DependencyTable := List (Path × List Path)

namespace DependencyTable

/-- The other scripts that depend on a path. -/
def dependents (table : DependencyTable) (path : Path) : List Path :=
  (table.filter fun (script, dependencies) => script ≠ path ∧ path ∈ dependencies).map (·.1)

/-- Puts paths behind a list, each that is neither in it nor excluded, and
tells which those were. -/
def enqueue (exclude : List Path) : List Path → List Path → List Path × List Path
  | [], queue => (queue, [])
  | p :: rest, queue =>
    if p ∈ queue ∨ p ∈ exclude then enqueue exclude rest queue
    else
      let (all, new) := enqueue exclude rest (queue ++ [p])
      (all, p :: new)

/-- Walks on from the paths still to be looked at; `rounds` bounds how many there are. -/
def walk (table : DependencyTable) (exclude : List Path) : Nat → List Path → List Path → List Path
  | 0, queue, _ => queue
  | _, queue, [] => queue
  | rounds + 1, queue, current :: pending =>
    let (queue, new) := enqueue exclude (table.dependents current) queue
    walk table exclude rounds queue (pending ++ new)

/-- Everything that has to be reloaded when some paths changed, each once. Every path in
the result is a changed or a registered one, which bounds the walk. -/
def expand (table : DependencyTable) (changed exclude : List Path) : List Path :=
  let (queue, seeds) := enqueue exclude changed []
  walk table exclude (changed.length + table.length + 1) queue seeds

end DependencyTable

end HotReload
