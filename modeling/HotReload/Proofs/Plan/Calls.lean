import HotReload.Proofs.Plan.Passes
import Mathlib.Data.List.Induction

/-!
# Calls to a plan

A plan may be told in any order and any number of times what to load, to reload and to unload. What
it holds then goes by the paths that were to be loaded at all: they are not reloaded, whether that
was asked for before or after. Of several instances for one path the first is unloaded.
-/
namespace HotReload

/-- A call to a plan. -/
inductive PlanCall (α : Type) where
  | load (path : Path)
  | reload (path : Path)
  | unload (path : Path) (script : α)

namespace PlanCall

variable {α : Type}

def perform (plan : Plan α) : PlanCall α → Plan α
  | .load path => plan.addLoad path
  | .reload path => plan.addReload path
  | .unload path script => plan.addUnload path script

/-- The plan after some calls to an empty one. -/
def planned (calls : List (PlanCall α)) : Plan α := calls.foldl perform {}

def load? : PlanCall α → Option Path
  | .load path => some path
  | _ => none

def reload? : PlanCall α → Option Path
  | .reload path => some path
  | _ => none

def unload? : PlanCall α → Option (Path × α)
  | .unload path script => some (path, script)
  | _ => none

/-- The paths that are to be loaded, call by call. -/
def loads (calls : List (PlanCall α)) : List Path := calls.filterMap load?

def reloads (calls : List (PlanCall α)) : List Path := calls.filterMap reload?

/-- The instances that are to be unloaded with their paths, call by call. -/
def unloads (calls : List (PlanCall α)) : List (Path × α) := calls.filterMap unload?

end PlanCall

theorem Registry.get?_append_singleton {α : Type} (registry : Registry α) (p q : Path) (a : α) :
    Registry.get? (registry ++ [(p, a)]) q = (registry.get? q).or (if p = q then some a
      else none) := by
  rw [Registry.get?, Registry.get?, List.find?_append, Option.map_or, List.find?_singleton]
  by_cases h : p = q <;> simp [h]

section First

theorem eraseDups_append_singleton (l : List Path) (p : Path) :
    (l ++ [p]).eraseDups = if p ∈ l then l.eraseDups else l.eraseDups ++ [p] := by
  rw [List.eraseDups_append]
  by_cases h : p ∈ l <;> simp [List.removeAll, List.eraseDups_cons, h]

theorem nodup_eraseDups (l : List Path) : l.eraseDups.Nodup := by
  induction l using List.reverseRecOn with
  | nil => exact List.nodup_nil
  | append_singleton l p ih =>
    rw [eraseDups_append_singleton]
    split
    · exact ih
    · exact ih.append (List.nodup_singleton p) (by simpa using ‹p ∉ l›)

theorem eraseDups_filter (q : Path → Bool) (l : List Path) :
    (l.filter q).eraseDups = l.eraseDups.filter q := by
  induction l using List.reverseRecOn with
  | nil => rfl
  | append_singleton l p ih =>
    rw [List.filter_append, eraseDups_append_singleton]
    cases hq : q p with
    | true =>
      rw [List.filter_cons_of_pos hq, List.filter_nil, eraseDups_append_singleton, ih]
      by_cases hp : p ∈ l <;> simp [hp, hq]
    | false =>
      rw [List.filter_cons_of_neg (by simp [hq]), List.filter_nil, List.append_nil, ih]
      by_cases hp : p ∈ l <;> simp [hp, hq]

/-- A path taken out of the first occurrences of some paths leaves those of the others. -/
theorem erase_eraseDups (l : List Path) (p : Path) :
    l.eraseDups.erase p = (l.filter (· ≠ p)).eraseDups := by
  rw [(nodup_eraseDups l).erase_eq_filter, eraseDups_filter]
  exact List.filter_congr fun q _ => (decide_not ..).symm

theorem eraseDups_perm {l l' : List Path} (h : l'.Perm l) : l'.eraseDups.Perm l.eraseDups := by
  rw [List.perm_ext_iff_of_nodup (nodup_eraseDups l') (nodup_eraseDups l)]
  intro q
  rw [List.mem_eraseDups, List.mem_eraseDups, h.mem_iff]

end First

namespace PlanCall

variable {α : Type}

theorem planned_append (calls : List (PlanCall α)) (call : PlanCall α) :
    planned (calls ++ [call]) = perform (planned calls) call := by
  rw [planned, List.foldl_append]
  rfl

theorem loads_append (calls : List (PlanCall α)) (call : PlanCall α) :
    loads (calls ++ [call]) = loads calls ++ call.load?.toList := by
  rw [loads, List.filterMap_append]
  cases call <;> rfl

theorem reloads_append (calls : List (PlanCall α)) (call : PlanCall α) :
    reloads (calls ++ [call]) = reloads calls ++ call.reload?.toList := by
  rw [reloads, List.filterMap_append]
  cases call <;> rfl

theorem unloads_append (calls : List (PlanCall α)) (call : PlanCall α) :
    unloads (calls ++ [call]) = unloads calls ++ call.unload?.toList := by
  rw [unloads, List.filterMap_append]
  cases call <;> rfl

/-- What a plan holds after some calls. -/
structure Tells (calls : List (PlanCall α)) (plan : Plan α) : Prop where
  /-- What is done with a plan is not up to these calls. -/
  frame : plan = { toLoad := plan.toLoad, toUnload := plan.toUnload, toReload := plan.toReload }
  load : plan.toLoad = (loads calls).eraseDups
  reload : plan.toReload = ((reloads calls).filter (· ∉ loads calls)).eraseDups
  keys : plan.toUnload.map (·.1) = ((unloads calls).map (·.1)).eraseDups
  unload : ∀ p, Registry.get? plan.toUnload p = Registry.get? (unloads calls) p

namespace Tells

variable {calls : List (PlanCall α)} {plan : Plan α}

theorem addLoad (h : Tells calls plan) (p : Path) :
    Tells (calls ++ [.load p]) (plan.addLoad p) where
  frame := by
    rw [h.frame]
    rfl
  load := by
    rw [loads_append, Plan.addLoad, h.load]
    simp [load?, eraseDups_append_singleton]
  reload := by
    -- the path leaves what was to be reloaded, and what is asked for later does not count either
    rw [loads_append, reloads_append, Plan.addLoad, h.reload, erase_eraseDups, List.filter_filter]
    simp [load?, reload?, not_or, and_comm]
  keys := by
    rw [unloads_append]
    simpa [unload?, Plan.addLoad] using h.keys
  unload p := by
    rw [unloads_append]
    simpa [unload?, Plan.addLoad] using h.unload p

theorem addReload (h : Tells calls plan) (p : Path) :
    Tells (calls ++ [.reload p]) (plan.addReload p) := by
  have hload : (plan.addReload p).toLoad = plan.toLoad := by
    rw [Plan.addReload]
    split <;> rfl
  have hunload : (plan.addReload p).toUnload = plan.toUnload := by
    rw [Plan.addReload]
    split <;> rfl
  have hreload :
    (plan.addReload p).toReload = ((reloads calls ++ [p]).filter (· ∉ loads calls)).eraseDups := by
    have hmem : p ∈ plan.toLoad ↔ p ∈ loads calls := by rw [h.load, List.mem_eraseDups]
    rw [Plan.addReload, List.filter_append]
    by_cases hl : p ∈ loads calls
    · rw [if_pos (Or.inl (hmem.mpr hl)), List.filter_cons_of_neg (by simpa using hl),
        List.filter_nil, List.append_nil, h.reload]
    · have hnew : p ∈ plan.toReload ↔ p ∈ (reloads calls).filter (· ∉ loads calls) := by
        rw [h.reload, List.mem_eraseDups]
      rw [List.filter_cons_of_pos (by simpa using hl), List.filter_nil, eraseDups_append_singleton,
        ← h.reload]
      simp only [hmem, hl, false_or, ← hnew]
      split <;> rfl
  refine ⟨?_, ?_, ?_, ?_, ?_⟩
  · rw [Plan.addReload]
    split
    · exact h.frame
    · rw [h.frame]
  · rw [hload, h.load, loads_append]
    simp [load?]
  · rw [hreload, loads_append, reloads_append]
    simp [load?, reload?]
  · rw [hunload, h.keys, unloads_append]
    simp [unload?]
  · intro q
    rw [hunload, h.unload, unloads_append]
    simp [unload?]

theorem unloads_iff (h : Tells calls plan) {p : Path} :
    plan.unloads p = true ↔ p ∈ (unloads calls).map (·.1) := by
  rw [← List.mem_eraseDups, ← h.keys]
  simp [Plan.unloads]

theorem addUnload (h : Tells calls plan) (p : Path) (script : α) :
    Tells (calls ++ [.unload p script]) (plan.addUnload p script) := by
  have hload : (plan.addUnload p script).toLoad = plan.toLoad := by
    rw [Plan.addUnload]
    split <;> rfl
  have hreload : (plan.addUnload p script).toReload = plan.toReload := by
    rw [Plan.addUnload]
    split <;> rfl
  refine ⟨?_, ?_, ?_, ?_, ?_⟩
  · rw [Plan.addUnload]
    split
    · exact h.frame
    · rw [h.frame]
  · rw [hload, h.load, loads_append]
    simp [load?]
  · rw [hreload, h.reload, loads_append, reloads_append]
    simp [load?, reload?]
  · rw [unloads_append, unload?, Option.toList_some, List.map_append, List.map_singleton,
      eraseDups_append_singleton, Plan.addUnload]
    simp only [h.unloads_iff]
    split
    · exact h.keys
    · rw [List.map_append, h.keys, List.map_singleton]
  · intro q
    rw [unloads_append, unload?, Option.toList_some, Registry.get?_append_singleton, ← h.unload,
      Plan.addUnload]
    split
    · -- the path has an instance already, which comes first
      rename_i hp
      obtain ⟨a, ha⟩ := Registry.contains_iff.mp hp
      by_cases hq : p = q
      · rw [← hq, ha, Option.some_or]
      · rw [if_neg hq, Option.or_none]
    · exact Registry.get?_append_singleton ..

end Tells

theorem tells_planned (calls : List (PlanCall α)) : Tells calls (planned calls) := by
  induction calls using List.reverseRecOn with
  | nil => exact ⟨rfl, rfl, rfl, rfl, fun _ => rfl⟩
  | append_singleton calls call ih =>
    rw [planned_append]
    cases call with
    | load p => exact ih.addLoad p
    | reload p => exact ih.addReload p
    | unload p script => exact ih.addUnload p script

/-- Whatever a plan is told in whatever order: it loads each path that is to be loaded, in the order
in which they first were; it reloads the others that are to be reloaded, likewise; and for each path
it unloads the first instance given. The same calls in another order give the same paths. -/
theorem loading_wins (calls : List (PlanCall α)) :
    let plan := planned calls
    plan = { toLoad := (loads calls).eraseDups
             toReload := ((reloads calls).filter (· ∉ loads calls)).eraseDups
             toUnload := plan.toUnload } ∧
    (plan.toLoad.Nodup ∧ plan.toReload.Nodup ∧ plan.toLoad.Disjoint plan.toReload) ∧
    (plan.toUnload.map (·.1) = ((unloads calls).map (·.1)).eraseDups ∧
      ∀ p, Registry.get? plan.toUnload p = Registry.get? (unloads calls) p) ∧
    ∀ calls', calls'.Perm calls →
      (planned calls').toLoad.Perm plan.toLoad ∧ (planned calls').toReload.Perm plan.toReload ∧
        ((planned calls').toUnload.map (·.1)).Perm (plan.toUnload.map (·.1)) := by
  intro plan
  have h : Tells calls plan := tells_planned calls
  refine ⟨?_, ⟨?_, ?_, ?_⟩, ⟨h.keys, h.unload⟩, fun calls' hperm => ⟨?_, ?_, ?_⟩⟩
  · rw [← h.load, ← h.reload]
    exact h.frame
  · rw [h.load]
    exact nodup_eraseDups _
  · rw [h.reload]
    exact nodup_eraseDups _
  · intro p hload hreload
    rw [h.load, List.mem_eraseDups] at hload
    rw [h.reload, List.mem_eraseDups, List.mem_filter, decide_eq_true_eq] at hreload
    exact hreload.2 hload
  · rw [(tells_planned calls').load, h.load]
    exact eraseDups_perm (hperm.filterMap _)
  · have hsame : ∀ p,
      p ∉ loads calls' ↔ p ∉ loads calls := fun p => not_congr (hperm.filterMap load?).mem_iff
    rw [(tells_planned calls').reload, h.reload]
    simp only [hsame]
    exact eraseDups_perm ((hperm.filterMap _).filter _)
  · rw [(tells_planned calls').keys, h.keys]
    exact eraseDups_perm ((hperm.filterMap _).map _)

/-- Loading `a` is asked for between two requests to reload it, and two
instances of `b` are given. -/
def mixed : List (PlanCall Nat) :=
  [.reload ⟨.relative, ["a"]⟩, .unload ⟨.relative, ["b"]⟩ 1, .load ⟨.relative, ["a"]⟩,
    .reload ⟨.relative, ["a"]⟩, .reload ⟨.relative, ["c"]⟩, .unload ⟨.relative, ["b"]⟩ 2]

theorem loading_wins_mixed :
    (planned mixed).toLoad = [⟨.relative, ["a"]⟩] ∧
      (planned mixed).toReload = [⟨.relative, ["c"]⟩] ∧
      Registry.get? (planned mixed).toUnload ⟨.relative, ["b"]⟩ = some 1 ∧
      (planned mixed.reverse).toReload.Perm (planned mixed).toReload := by
  obtain ⟨hplan, -, ⟨-, hunload⟩, hperm⟩ := loading_wins mixed
  refine ⟨?_, ?_, ?_, (hperm mixed.reverse (List.reverse_perm _)).2.1⟩
  · rw [hplan]
    rfl
  · rw [hplan]
    rfl
  · rw [hunload]
    rfl

end PlanCall

end HotReload
