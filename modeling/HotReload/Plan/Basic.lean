import HotReload.Path.Basic

/-!
# Reconciliation plans

The work of one cycle: paths to load, to reload and to unload, and what was done. A
path that qualifies for loading and reloading is loaded.
-/
namespace HotReload

/-- A plan; `α` is what stands for a script instance. -/
structure Plan (α : Type) where
  toLoad : List Path := []
  /-- Each path with the instance to unload. -/
  toUnload : List (Path × α) := []
  toReload : List Path := []
  /-- What is reloaded: the changed paths and everything that depends on them. -/
  reloadQueue : List Path := []
  loaded : List Path := []
  reloaded : List Path := []
  unloaded : List Path := []
  deriving Repr, Inhabited

namespace Plan

variable {α : Type}

def unloads (plan : Plan α) (path : Path) : Bool := plan.toUnload.any (·.1 = path)

def addLoad (plan : Plan α) (path : Path) : Plan α :=
  { plan with
    toLoad := if path ∈ plan.toLoad then plan.toLoad else plan.toLoad ++ [path]
    toReload := plan.toReload.erase path }

def addReload (plan : Plan α) (path : Path) : Plan α :=
  if path ∈ plan.toLoad ∨ path ∈ plan.toReload then plan
  else { plan with toReload := plan.toReload ++ [path] }

/-- Unloads an instance, unless one is already unloaded for its path. -/
def addUnload (plan : Plan α) (path : Path) (script : α) : Plan α :=
  if plan.unloads path then plan else { plan with toUnload := plan.toUnload ++ [(path, script)] }

/-- Whether a path is already to be loaded or unloaded. -/
def isPending (plan : Plan α) (path : Path) : Bool := path ∈ plan.toLoad || plan.unloads path

/-- Whether there was nothing to do. -/
def isEmpty (plan : Plan α) : Bool :=
  plan.toLoad.isEmpty && plan.toUnload.isEmpty && plan.toReload.isEmpty && plan.reloadQueue.isEmpty

/-- Whether an instance was made or removed. -/
def changed (plan : Plan α) : Bool :=
  !(plan.loaded.isEmpty && plan.reloaded.isEmpty && plan.unloaded.isEmpty)

/-- The lists of a plan by name. -/
def summary (plan : Plan α) : List (String × List Path) :=
  [("to_load", plan.toLoad), ("to_unload", plan.toUnload.map (·.1)), ("to_reload", plan.toReload),
    ("reload_queue", plan.reloadQueue), ("loaded", plan.loaded), ("reloaded", plan.reloaded),
    ("unloaded", plan.unloaded)]

end Plan

end HotReload
