import HotReload.Plan.Passes
import HotReload.Proofs.Plan.Closure

/-!
# What the passes leave in a plan

Each pass is described by what the plan holds after it. The last statements collapse the
passes to one formula for each path: the order of the reported changes and how many there
are of a path no longer show.
-/
namespace HotReload

namespace Registry

variable {α : Type} {registry : Registry α} {p : Path} {a : α}

theorem contains_iff : registry.contains p = true ↔ ∃ a, registry.get? p = some a := by
  induction registry with
  | nil => simp [contains, get?]
  | cons entry rest ih =>
    by_cases h : entry.1 = p <;> simp_all [contains, get?]

theorem get?_eq_none_iff : registry.get? p = none ↔ registry.contains p = false := by
  rw [← Bool.not_eq_true, contains_iff, not_exists]
  exact Option.eq_none_iff_forall_not_mem

theorem mem_of_get? (h : registry.get? p = some a) : (p, a) ∈ registry := by
  simp only [get?, Option.map_eq_some_iff] at h
  obtain ⟨⟨q, b⟩, hf, rfl⟩ := h
  have hq := List.find?_some hf
  simp only [decide_eq_true_eq] at hq
  subst hq
  exact List.mem_of_find?_eq_some hf

theorem get?_of_mem (hn : (registry.map (·.1)).Nodup) (h : (p, a) ∈ registry) :
    registry.get? p = some a := by
  induction registry with
  | nil => simp at h
  | cons entry rest ih =>
    rw [List.map_cons, List.nodup_cons] at hn
    rcases List.mem_cons.mp h with rfl | hr
    · simp [get?]
    · have hne : entry.1 ≠ p := by
        rintro rfl
        exact hn.1 (List.mem_map.mpr ⟨_, hr, rfl⟩)
      simpa [get?, hne] using ih hn.2 hr

theorem get?_eq_some_iff (hn : (registry.map (·.1)).Nodup) :
    registry.get? p = some a ↔ (p, a) ∈ registry :=
  ⟨mem_of_get?, get?_of_mem hn⟩

end Registry

namespace Plan

variable {α : Type}

/-- What a plan holds before it is expanded: the paths to load, those to reload and the
instances to unload, each once. -/
structure Holds (plan : Plan α) (load reload : Path → Prop) (unload : Path → α → Prop) : Prop where
  load : ∀ p, p ∈ plan.toLoad ↔ load p
  reload : ∀ p, p ∈ plan.toReload ↔ reload p
  unload : ∀ p a, (p, a) ∈ plan.toUnload ↔ unload p a
  loadNodup : plan.toLoad.Nodup
  reloadNodup : plan.toReload.Nodup
  unloadNodup : (plan.toUnload.map (·.1)).Nodup
  undone : plan.loaded = [] ∧ plan.reloaded = [] ∧ plan.unloaded = []

variable {plan : Plan α} {load reload load' reload' : Path → Prop}
  {unload unload' : Path → α → Prop}

theorem holds_empty : ({} : Plan α).Holds (fun _ => False) (fun _ => False) (fun _ _ => False) := by
  constructor <;> simp

theorem Holds.congr (h : plan.Holds load reload unload) (hl : ∀ p, load p ↔ load' p)
    (hr : ∀ p, reload p ↔ reload' p) (hu : ∀ p a, unload p a ↔ unload' p a) :
    plan.Holds load' reload' unload' where
  load p := (h.load p).trans (hl p)
  reload p := (h.reload p).trans (hr p)
  unload p a := (h.unload p a).trans (hu p a)
  loadNodup := h.loadNodup
  reloadNodup := h.reloadNodup
  unloadNodup := h.unloadNodup
  undone := h.undone

theorem Holds.unloads_iff (h : plan.Holds load reload unload) {p : Path} :
    plan.unloads p = true ↔ ∃ a, unload p a := by
  simp only [unloads, List.any_eq_true, decide_eq_true_eq, ← h.unload]
  exact ⟨fun ⟨e, he, hp⟩ => ⟨e.2, hp ▸ he⟩, fun ⟨a, ha⟩ => ⟨(p, a), ha, rfl⟩⟩

theorem Holds.isPending_iff (h : plan.Holds load reload unload) {p : Path} :
    plan.isPending p = true ↔ load p ∨ ∃ a, unload p a := by
  rw [isPending, Bool.or_eq_true, decide_eq_true_eq, h.load, h.unloads_iff]

theorem Holds.addLoad (h : plan.Holds load reload unload) (q : Path) :
    (plan.addLoad q).Holds (fun p => load p ∨ p = q) (fun p => reload p ∧ p ≠ q) unload where
  load p := by
    by_cases hq : q ∈ plan.toLoad
    · simp only [Plan.addLoad, if_pos hq, ← h.load]
      grind
    · simp only [Plan.addLoad, if_neg hq, List.mem_append, List.mem_singleton, ← h.load]
  reload p := by
    rw [Plan.addLoad, h.reloadNodup.mem_erase_iff, h.reload]
    exact and_comm
  unload := h.unload
  loadNodup := by
    by_cases hq : q ∈ plan.toLoad
    · simpa only [Plan.addLoad, if_pos hq] using h.loadNodup
    · simp only [Plan.addLoad, if_neg hq]
      exact h.loadNodup.append (List.nodup_singleton q) (by simpa using hq)
  reloadNodup := h.reloadNodup.erase q
  unloadNodup := h.unloadNodup
  undone := h.undone

theorem Holds.addReload (h : plan.Holds load reload unload) (q : Path) :
    (plan.addReload q).Holds load (fun p => reload p ∨ p = q ∧ ¬ load q) unload := by
  by_cases hq : q ∈ plan.toLoad ∨ q ∈ plan.toReload
  · rw [Plan.addReload, if_pos hq]
    refine h.congr (fun _ => Iff.rfl) (fun p => ?_) (fun _ _ => Iff.rfl)
    rw [h.load, h.reload] at hq
    grind
  · rw [Plan.addReload, if_neg hq]
    rw [h.load, h.reload, not_or] at hq
    refine ⟨h.load, fun p => ?_, h.unload, h.loadNodup, ?_, h.unloadNodup, h.undone⟩
    · rw [List.mem_append, List.mem_singleton, h.reload]
      simp [hq.1]
    · refine h.reloadNodup.append (List.nodup_singleton q) ?_
      rw [List.disjoint_singleton, h.reload]
      exact hq.2

theorem Holds.addUnload (h : plan.Holds load reload unload) (q : Path) (s : α) :
    (plan.addUnload q s).Holds load reload
      (fun p a => unload p a ∨ (p = q ∧ a = s ∧ ∀ b, ¬ unload q b)) := by
  by_cases hq : plan.unloads q = true
  · rw [Plan.addUnload, if_pos hq]
    refine h.congr (fun _ => Iff.rfl) (fun _ => Iff.rfl) (fun p a => ?_)
    obtain ⟨b, hb⟩ := h.unloads_iff.mp hq
    exact ⟨Or.inl, fun ho => ho.resolve_right fun ⟨_, _, hn⟩ => hn b hb⟩
  · rw [Plan.addUnload, if_neg hq]
    rw [h.unloads_iff, not_exists] at hq
    refine ⟨h.load, h.reload, fun p a => ?_, h.loadNodup, h.reloadNodup, ?_, h.undone⟩
    · rw [List.mem_append, List.mem_singleton, h.unload, Prod.mk.injEq]
      simp [hq]
    · rw [List.map_append, List.map_singleton]
      refine h.unloadNodup.append (List.nodup_singleton q) ?_
      rw [List.disjoint_singleton]
      intro hm
      obtain ⟨⟨p, a⟩, he, rfl⟩ := List.mem_map.mp hm
      exact hq a ((h.unload p a).mp he)

/-- Whether some change says that a path was created or modified. -/
def Updated (changes : List Change) (p : Path) : Prop :=
  ∃ c ∈ changes, c.path = p ∧ c.kind ≠ .deleted

def Deleted (changes : List Change) (p : Path) : Prop :=
  ∃ c ∈ changes, c.path = p ∧ c.kind = .deleted

theorem updated_append_singleton {changes : List Change} {c : Change} {p : Path} :
    Updated (changes ++ [c]) p ↔ Updated changes p ∨ c.path = p ∧ c.kind ≠ .deleted := by
  simp only [Updated, List.mem_append, List.mem_singleton]
  grind

theorem deleted_append_singleton {changes : List Change} {c : Change} {p : Path} :
    Deleted (changes ++ [c]) p ↔ Deleted changes p ∨ c.path = p ∧ c.kind = .deleted := by
  simp only [Deleted, List.mem_append, List.mem_singleton]
  grind

section Passes

/-! What is registered, what is watched and which paths have a file stay the same while the
passes run. -/

variable (registered : Registry α) (watched : List Path) (isFile : Path → Bool)

/-- Whether the files alone say that a path is to be loaded. -/
def Appears (p : Path) : Prop := registered.get? p = none ∧ p ∈ watched ∧ isFile p = true

/-- Whether a registered path is unloaded whatever was reported. -/
def Vanishes (p : Path) : Prop := p ∉ watched ∨ isFile p = false

theorem holds_addExistence (paths : List Path) (h : plan.Holds load reload unload)
    (hr : ∀ p, ¬ reload p) (hu : ∀ p a, unload p a → registered.get? p = some a) :
    (plan.addExistence registered (paths.map fun p => (p, isFile p))).Holds
      (fun p => load p ∨ Appears registered paths isFile p) (fun _ => False)
      (fun p a => unload p a ∨ registered.get? p = some a ∧ p ∈ paths ∧ isFile p = false) := by
  induction paths generalizing plan load reload unload with
  | nil => exact h.congr (by simp [Appears]) (by simpa using hr) (by simp)
  | cons q rest ih =>
    simp only [addExistence, List.map_cons, List.foldl_cons] at ih ⊢
    cases hq : registered.get? q with
    | none =>
      cases hf : isFile q with
      | true =>
        refine (ih (h.addLoad q) (by simp [hr]) hu).congr ?_ (by simp) ?_ <;> grind [Appears]
      | false =>
        refine (ih h hr hu).congr ?_ (by simp) ?_ <;> grind [Appears]
    | some s =>
      cases hf : isFile q with
      | true =>
        refine (ih h hr hu).congr ?_ (by simp) ?_ <;> grind [Appears]
      | false =>
        refine (ih (h.addUnload q s) hr (by grind)).congr ?_ (by simp) ?_ <;> grind [Appears]

theorem holds_addOrphans (hn : (registered.map (·.1)).Nodup) (h : plan.Holds load reload unload)
    (hu : ∀ p a, unload p a → registered.get? p = some a) :
    (plan.addOrphans registered watched).Holds load reload
      (fun p a => unload p a ∨ registered.get? p = some a ∧ p ∉ watched) := by
  suffices hs : ∀ entries : List (Path × α), (∀ e ∈ entries, registered.get? e.1 = some e.2) →
      ∀ {plan : Plan α} {unload : Path → α → Prop}, plan.Holds load reload unload →
      (∀ p a, unload p a → registered.get? p = some a) →
      (plan.addOrphans entries watched).Holds load reload
        (fun p a => unload p a ∨ (p, a) ∈ entries ∧ p ∉ watched) by
    refine (hs registered (fun e he => Registry.get?_of_mem hn he) h hu).congr (fun _ => Iff.rfl)
      (fun _ => Iff.rfl) fun p a => ?_
    rw [Registry.get?_eq_some_iff hn]
  intro entries he
  induction entries with
  | nil => exact fun h _ => h.congr (by simp) (by simp) (by simp)
  | cons e rest ih =>
    obtain ⟨q, s⟩ := e
    have hq : registered.get? q = some s := he (q, s) (by simp)
    intro plan unload h hu
    simp only [addOrphans, List.foldl_cons] at ih ⊢
    by_cases hw : q ∈ watched
    · simp only [if_pos hw]
      refine (ih (fun e hm => he e (by simp [hm])) h hu).congr (by simp) (by simp) ?_
      grind
    · simp only [if_neg hw]
      refine (ih (fun e hm => he e (by simp [hm])) (h.addUnload q s) (by grind)).congr (by simp)
        (by simp) ?_
      grind

/-- Before the reported changes, a plan loads what appears and unloads what vanishes. -/
theorem holds_ofFiles (hn : (registered.map (·.1)).Nodup) :
    (ofFiles registered (watched.map fun p => (p, isFile p))).Holds
      (Appears registered watched isFile) (fun _ => False)
      (fun p a => registered.get? p = some a ∧ Vanishes watched isFile p) := by
  have hw : (watched.map fun p => (p, isFile p)).map (·.1) = watched := by
    rw [List.map_map]
    exact List.map_id watched
  rw [ofFiles, hw]
  have he := holds_addExistence registered isFile watched holds_empty (by simp) (by simp)
  refine (holds_addOrphans registered watched hn he (by grind)).congr (by simp) (by simp) ?_
  simp only [Vanishes]
  grind

/-- What holds after some changes were looked at: the plan, and the paths that are unloaded
unless something loads them. -/
structure Looked (state : Plan α × List Path) (changes : List Change) : Prop where
  plan : state.1.Holds
    (fun p => registered.get? p = none ∧ p ∈ watched ∧ (isFile p = true ∨ Updated changes p))
    (fun p => Updated changes p ∧ ¬ Appears registered watched isFile p ∧
      ((∃ a, registered.get? p = some a) ∧ ¬ Vanishes watched isFile p ∨
        registered.get? p = none ∧ p ∉ watched))
    (fun p a => registered.get? p = some a ∧ Vanishes watched isFile p)
  deleted : ∀ p a, registered.get? p = some a →
    (p ∈ state.2 ↔ Deleted changes p ∧ ¬ Vanishes watched isFile p)

variable {registered watched isFile}

/-- A change that is looked at adds its part. A path that is registered is never to be
loaded, so for it only an unload can stand in the way. -/
theorem Looked.addChange {state : Plan α × List Path} {changes : List Change}
    (h : Looked registered watched isFile state changes) (c : Change) :
    Looked registered watched isFile (Plan.addChange registered watched state c)
      (changes ++ [c]) := by
  obtain ⟨plan, deleted⟩ := state
  have hp := h.plan.isPending_iff (p := c.path)
  have hd : ∀ p a, registered.get? p = some a →
      (p ∈ deleted ↔ Deleted changes p ∧ ¬ Vanishes watched isFile p) := h.deleted
  have hc : registered.contains c.path = true ↔ ∃ a, registered.get? c.path = some a :=
    Registry.contains_iff
  have hnone : registered.get? c.path = none ↔ registered.contains c.path = false :=
    Registry.get?_eq_none_iff
  simp only at hp
  simp only [Plan.addChange]
  by_cases hpend : plan.isPending c.path = true
  · rw [if_pos hpend]
    rw [hp] at hpend
    refine ⟨h.plan.congr ?_ ?_ ?_, ?_⟩
    · simp only [updated_append_singleton]
      grind
    · simp only [updated_append_singleton]
      grind [Appears]
    · exact fun _ _ => Iff.rfl
    · simp only [deleted_append_singleton]
      grind
  · rw [if_neg hpend]
    rw [hp] at hpend
    by_cases hkind : c.kind = .deleted
    · rw [if_pos hkind]
      refine ⟨h.plan.congr ?_ ?_ ?_, ?_⟩
      · simp only [updated_append_singleton]
        grind
      · simp only [updated_append_singleton]
        grind
      · exact fun _ _ => Iff.rfl
      · simp only [deleted_append_singleton]
        grind
    · rw [if_neg hkind]
      by_cases hreg : registered.contains c.path = true ∨ c.path ∉ watched
      · rw [if_pos hreg]
        refine ⟨(h.plan.addReload c.path).congr ?_ ?_ ?_, ?_⟩
        · simp only [updated_append_singleton]
          grind
        · simp only [updated_append_singleton]
          grind [Appears]
        · exact fun _ _ => Iff.rfl
        · simp only [deleted_append_singleton]
          grind
      · rw [if_neg hreg]
        refine ⟨(h.plan.addLoad c.path).congr ?_ ?_ ?_, ?_⟩
        · simp only [updated_append_singleton]
          grind
        · simp only [updated_append_singleton]
          grind [Appears]
        · exact fun _ _ => Iff.rfl
        · simp only [deleted_append_singleton]
          grind

theorem looked_addChanges (hn : (registered.map (·.1)).Nodup) (changes : List Change) :
    Looked registered watched isFile
      ((ofFiles registered (watched.map fun p => (p, isFile p))).addChanges registered watched
        changes)
      changes := by
  induction changes using List.reverseRecOn with
  | nil =>
    refine ⟨(holds_ofFiles registered watched isFile hn).congr ?_ ?_ ?_, ?_⟩ <;>
      simp [Appears, Updated, Deleted, addChanges]
  | append_singleton changes c ih =>
    rw [addChanges, List.foldl_append]
    exact ih.addChange c

theorem holds_addDeletions (deleted : List Path) (h : plan.Holds load reload unload)
    (hu : ∀ p a, unload p a → registered.get? p = some a) :
    (plan.addDeletions registered deleted).Holds load reload
      (fun p a => unload p a ∨ registered.get? p = some a ∧ p ∈ deleted ∧ ¬ load p ∧
        ¬ reload p) := by
  induction deleted generalizing plan unload with
  | nil => exact h.congr (by simp) (by simp) (by simp)
  | cons q rest ih =>
    simp only [addDeletions, List.foldl_cons] at ih ⊢
    cases hq : registered.get? q with
    | none =>
      refine (ih h hu).congr (by simp) (by simp) ?_
      grind
    | some s =>
      by_cases hk : q ∈ plan.toLoad ∨ q ∈ plan.toReload
      · simp only [if_pos hk]
        rw [h.load, h.reload] at hk
        refine (ih h hu).congr (by simp) (by simp) ?_
        grind
      · simp only [if_neg hk]
        rw [h.load, h.reload] at hk
        refine (ih (h.addUnload q s) (by grind)).congr (by simp) (by simp) ?_
        grind

variable (registered watched isFile)

/-- Whether a cycle loads a path that is not registered. -/
def Loads (changes : List Change) (p : Path) : Prop :=
  registered.get? p = none ∧ p ∈ watched ∧ (isFile p = true ∨ Updated changes p)

/-- Whether a cycle unloads the instance of a path. -/
def Unloads (changes : List Change) (p : Path) : Prop :=
  (∃ a, registered.get? p = some a) ∧
    (p ∉ watched ∨ isFile p = false ∨ Deleted changes p ∧ ¬ Updated changes p)

/-- Whether a change counts as one of a file that loaded scripts may depend on: it is
registered and stays so, or nobody knows it. -/
def Invalidates (changes : List Change) (p : Path) : Prop :=
  Updated changes p ∧
    ((∃ a, registered.get? p = some a) ∧ ¬ Unloads registered watched isFile changes p ∨
      registered.get? p = none ∧ p ∉ watched)

variable {registered watched isFile} {table : DependencyTable}

/-- The plan of a cycle before it is expanded, path by path. -/
theorem holds_compute (hn : (registered.map (·.1)).Nodup) (changes : List Change) :
    (compute registered table (watched.map fun p => (p, isFile p)) changes).Holds
      (Loads registered watched isFile changes) (Invalidates registered watched isFile changes)
      (fun p a => registered.get? p = some a ∧ Unloads registered watched isFile changes p) := by
  have hl : Looked registered watched isFile _ changes := looked_addChanges hn changes
  have hw : (watched.map fun p => (p, isFile p)).map (·.1) = watched := by
    rw [List.map_map]
    exact List.map_id watched
  have hv : ∀ p a, registered.get? p = some a ∧ Vanishes watched isFile p →
      registered.get? p = some a := fun _ _ h => h.1
  have hd := holds_addDeletions
    ((ofFiles registered (watched.map fun p => (p, isFile p))).addChanges registered watched
      changes).2
    hl.plan hv
  have hx : Plan.Holds _ (Loads registered watched isFile changes)
      (Invalidates registered watched isFile changes)
      (fun p a => registered.get? p = some a ∧ Unloads registered watched isFile changes p) :=
    hd.congr (fun _ => Iff.rfl) (fun p => ?_) (fun p a => ?_)
  · simp only [compute, hw]
    exact ⟨hx.load, hx.reload, hx.unload, hx.loadNodup, hx.reloadNodup, hx.unloadNodup, hx.undone⟩
  · clear hl hw hd
    simp only [Invalidates, Unloads, Appears, Vanishes]
    cases registered.get? p with
    | none =>
      simp only [reduceCtorEq, exists_false, false_and, true_and, false_or]
      grind
    | some a =>
      simp only [reduceCtorEq, false_and, not_false_eq_true, true_and, Option.some.injEq,
        exists_eq', or_false]
      grind
  · have hdel := hl.deleted p a
    clear hl hw hd
    simp only [Unloads, Appears, Vanishes] at hdel ⊢
    cases hg : registered.get? p with
    | none => simp
    | some b => grind

/-- What is reloaded: the closure of what is loaded and of what changed, over dependents
that are not unloaded, without what is loaded anyway. -/
theorem mem_reloadQueue_compute (hn : (registered.map (·.1)).Nodup) {changes : List Change}
    {p : Path} :
    p ∈ (compute registered table (watched.map fun p => (p, isFile p)) changes).reloadQueue ↔
      ¬ Loads registered watched isFile changes p ∧
        DependencyTable.Closure table
          (fun q => Loads registered watched isFile changes q ∨
            Invalidates registered watched isFile changes q)
          (Unloads registered watched isFile changes) p := by
  have h : Plan.Holds (compute registered table (watched.map fun p => (p, isFile p)) changes)
    _ _ _ :=
    holds_compute hn changes
  generalize hc : compute registered table (watched.map fun p => (p, isFile p)) changes = plan at h
  have hq : plan.reloadQueue =
      (table.expand (plan.toReload ++ plan.toLoad) (plan.toUnload.map (·.1))).filter
        (· ∉ plan.toLoad) := by
    rw [← hc]
    rfl
  have hseed : (· ∈ plan.toReload ++ plan.toLoad) = (fun q =>
      Loads registered watched isFile changes q ∨
        Invalidates registered watched isFile changes q) := by
    funext q
    rw [List.mem_append, h.load, h.reload]
    exact propext or_comm
  have hout : (· ∈ plan.toUnload.map (·.1)) = Unloads registered watched isFile changes := by
    funext q
    refine propext ⟨fun hm => ?_, fun hm => ?_⟩
    · obtain ⟨⟨q', a⟩, he, rfl⟩ := List.mem_map.mp hm
      exact ((h.unload q' a).mp he).2
    · obtain ⟨a, ha⟩ := hm.1
      exact List.mem_map.mpr ⟨(q, a), (h.unload q a).mpr ⟨ha, hm⟩, rfl⟩
  rw [hq, List.mem_filter, DependencyTable.mem_expand, hseed, hout, decide_eq_true_eq, h.load]
  exact and_comm

theorem nodup_reloadQueue_compute (watched : List (Path × Bool)) (changes : List Change) :
    (compute registered table watched changes).reloadQueue.Nodup :=
  (DependencyTable.nodup_expand _ _ _).filter _

end Passes

end Plan

end HotReload
