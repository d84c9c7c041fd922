import HotReload.Host.Instance

/-!
# Registration by hand

Registering and removing single instances, and asking who depends on a path, for scripts
that run without a reconciler.
-/
namespace HotReload.World

/-- Registers an instance; answers the one it replaces. -/
def registerScript (n : Nat) : Act (Option Nat) := do
  let s ← script n
  let w ← get
  set { w with registry := w.registry.register s.path n }
  return w.registry.get? s.path

/-- Removes an instance if it is still registered; answers whether it was. -/
def unregisterScript (n : Nat) : Act Bool := do
  let s ← script n
  let w ← get
  set { w with registry := w.registry.unregister s.path n }
  return w.registry.get? s.path = some n

/-- The registered instances, without that of the path itself, that depend on a path. -/
def dependents (w : World) (path : Path) : List (Path × Nat) :=
  let paths := w.dependencyTable.dependents path
  w.registry.filter fun (p, _) => p ∈ paths

/-- Terminates every registered instance; answers how many did not terminate cleanly. -/
def terminateAll : Act Nat := do
  let w ← get
  set { w with registry := [] }
  w.registry.foldlM (fun failures (path, n) => do
    match ← attempt Failure.isOrdinary (terminate n) with
    | .ok true => return failures
    | .ok false => return failures + 1
    | .error e =>
      log "ScriptRegistry" .error "script_terminate_failed"
        [("path", .text path.toText), LogEntry.attached e]
      return failures + 1) 0

end HotReload.World
