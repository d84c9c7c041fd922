import HotReload.Change.Debouncer
import HotReload.Plan.Basic
import HotReload.Plan.Closure

/-!
# Planning a cycle

The plan of a cycle comes from the watched paths and which of them have a file, from
the registered instances, and from the changes reported since the last cycle. Nothing
here changes anything.
-/
namespace HotReload

/-- The instance registered for each path, in registration order. -/
abbrev Registry (α : Type) := List (Path × α)

namespace Registry

variable {α : Type}

def get? (registry : Registry α) (path : Path) : Option α :=
  (registry.find? (·.1 = path)).map (·.2)

def contains (registry : Registry α) (path : Path) : Bool := registry.any (·.1 = path)

/-- Registers an instance for its path, in the place of the one before it. -/
def register (path : Path) (script : α) : Registry α → Registry α
  | [] => [(path, script)]
  | (p, old) :: rest =>
    if p = path then (p, script) :: rest else (p, old) :: register path script rest

/-- Removes an instance if it is still the registered one of its path. -/
def unregister [DecidableEq α] (path : Path) (script : α) (registry : Registry α) : Registry α :=
  if registry.get? path = some script then registry.filter (·.1 ≠ path) else registry

theorem get?_register (path p : Path) (script : α) (registry : Registry α) :
    get? (register path script registry) p = if p = path then some script else get? registry p := by
  induction registry with
  | nil => grind [register, get?]
  | cons entry rest ih =>
    obtain ⟨q, old⟩ := entry
    by_cases hq : q = path <;> grind [register, get?]

theorem get?_unregister [DecidableEq α] (path p : Path) (script : α) (registry : Registry α) :
    get? (unregister path script registry) p =
      if p = path ∧ get? registry path = some script then none else get? registry p := by
  by_cases h : get? registry path = some script
  · simp only [unregister, h, if_true, and_true]
    by_cases hp : p = path
    · subst hp
      simp [get?, List.find?_filter]
    · simp only [get?, List.find?_filter, hp, if_false]
      congr 2
      funext e
      grind
  · simp [unregister, h]

end Registry

namespace Plan

variable {α : Type}

/-- Watched paths: load what has a file and is not registered, unload what is
registered and has no file. -/
def addExistence (registered : Registry α) (watched : List (Path × Bool)) (plan : Plan α) :
    Plan α :=
  watched.foldl (fun plan (path, isFile) =>
    match registered.get? path with
    | none => if isFile then plan.addLoad path else plan
    | some script => if isFile then plan else plan.addUnload path script) plan

/-- Registered paths that nobody watches any more are unloaded. -/
def addOrphans (registered : Registry α) (watched : List Path) (plan : Plan α) : Plan α :=
  registered.foldl (fun plan (path, script) =>
    if path ∈ watched then plan else plan.addUnload path script) plan

/-- One reported change, for a plan and the paths to unload unless something loads them. A
path that is registered or not watched is reloaded: an unwatched file still invalidates
whatever depends on it. -/
def addChange (registered : Registry α) (watched : List Path) (state : Plan α × List Path)
    (change : Change) : Plan α × List Path :=
  let (plan, deleted) := state
  if plan.isPending change.path then (plan, deleted)
  else if change.kind = .deleted then
    (plan, if change.path ∈ deleted then deleted else deleted ++ [change.path])
  else if registered.contains change.path ∨ change.path ∉ watched then
    (plan.addReload change.path, deleted)
  else (plan.addLoad change.path, deleted)

def addChanges (registered : Registry α) (watched : List Path) (changes : List Change)
    (plan : Plan α) : Plan α × List Path :=
  changes.foldl (addChange registered watched) (plan, [])

/-- A deleted path is unloaded unless this cycle loads it again. -/
def addDeletions (registered : Registry α) (deleted : List Path) (plan : Plan α) : Plan α :=
  deleted.foldl (fun plan path =>
    match registered.get? path with
    | none => plan
    | some script =>
      if path ∈ plan.toLoad ∨ path ∈ plan.toReload then plan else plan.addUnload path script) plan

/-- Fills in what is reloaded: the changed paths and their dependents, without
what is loaded anyway. -/
def withQueue (table : DependencyTable) (plan : Plan α) : Plan α :=
  { plan with
    reloadQueue := (table.expand (plan.toReload ++ plan.toLoad) (plan.toUnload.map (·.1))).filter
      (· ∉ plan.toLoad) }

/-- The plan before the reported changes are looked at. -/
def ofFiles (registered : Registry α) (watched : List (Path × Bool)) : Plan α :=
  (({} : Plan α).addExistence registered watched).addOrphans registered (watched.map (·.1))

/-- The plan of a cycle. -/
def compute (registered : Registry α) (table : DependencyTable) (watched : List (Path × Bool))
    (changes : List Change) : Plan α :=
  let (plan, deleted) :=
    (ofFiles registered watched).addChanges registered (watched.map (·.1)) changes
  (plan.addDeletions registered deleted).withQueue table

end Plan

end HotReload
