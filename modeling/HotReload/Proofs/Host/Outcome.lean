import HotReload.Proofs.FileTree.Lookup
import HotReload.Proofs.Host.Applying

/-!
# The outcome of a cycle

One formula for each path tells whether a cycle unloads, loads, reloads or keeps its
instance, whatever was reported and in whatever order.
-/
namespace HotReload

theorem DependencyTable.Closure.not_excluded {table : DependencyTable} {seed excluded : Path → Prop}
    {p : Path} (h : Closure table seed excluded p) : ¬ excluded p := by
  cases h <;> assumption

namespace World

open Operation

/-- Whether every registered path has one number, of an instance of that path. -/
structure IsRegistered (w : World) : Prop where
  nodup : (w.registry.map (·.1)).Nodup
  script : ∀ p n, w.registry.get? p = some n → ∃ s, w.script? n = some s ∧ s.path = p

/-- Whether a path is loaded by the next cycle. -/
def Loads (w : World) : Path → Prop := Plan.Loads w.registry w.watched w.hasFile w.reported

def Unloads (w : World) : Path → Prop := Plan.Unloads w.registry w.watched w.hasFile w.reported

def Invalidates (w : World) : Path → Prop :=
  Plan.Invalidates w.registry w.watched w.hasFile w.reported

/-- What is reached from the loaded and the changed paths over dependents that stay. -/
def Closure (w : World) : Path → Prop :=
  DependencyTable.Closure w.dependencyTable (fun p => w.Loads p ∨ w.Invalidates p) w.Unloads

variable {w w' : World}

theorem holds_plan (hr : IsRegistered w) :
    w.plan.Holds w.Loads w.Invalidates (fun p n => w.registry.get? p = some n ∧ w.Unloads p) :=
  Plan.holds_compute hr.nodup w.reported

theorem mem_reloadQueue_plan (hr : IsRegistered w) {p : Path} :
    p ∈ w.plan.reloadQueue ↔ ¬ w.Loads p ∧ w.Closure p :=
  Plan.mem_reloadQueue_compute hr.nodup

theorem mem_toUnload_plan (hr : IsRegistered w) {p : Path} :
    p ∈ w.plan.toUnload.map (·.1) ↔ w.Unloads p := by
  constructor
  · intro hm
    obtain ⟨⟨q, n⟩, he, rfl⟩ := List.mem_map.mp hm
    exact ((holds_plan hr).unload q n |>.mp he).2
  · intro hu
    obtain ⟨n, hn⟩ := hu.1
    exact List.mem_map.mpr ⟨(p, n), ((holds_plan hr).unload p n).mpr ⟨hn, hu⟩, rfl⟩

theorem mem_reloads_plan (hr : IsRegistered w) {p : Path} :
    p ∈ w.reloads w.plan ↔ (∃ n, w.registry.get? p = some n) ∧ w.Closure p := by
  rw [mem_reloads, mem_reloadQueue_plan hr]
  refine ⟨fun ⟨⟨_, hc⟩, hn⟩ => ⟨hn, hc⟩, fun ⟨⟨n, hn⟩, hc⟩ => ⟨⟨fun hl => ?_, hc⟩, n, hn⟩⟩
  rw [hl.1] at hn
  cases hn

/-- Whether all paths that may get instances can be asked for: those that are registered and
those that were reported as created or modified. -/
def IsNullFree (w : World) : Prop :=
  ∀ p, (∃ n, w.registry.get? p = some n) ∨ Plan.Updated w.reported p → IsNamed w p

theorem named_of_hasFile {p : Path} (h : w.hasFile p = true) : IsNamed w p := by
  by_contra hp
  have hf : w.files.isFile (w.fileOf p) = .ok false := by
    have hl : w.files.lookup (w.fileOf p) = .error .nullCharacter := by
      have hnull : (w.fileOf p).hasNull = true := by simpa [IsNamed] using hp
      simp only [FileTree.lookup, FileTree.find, hnull, if_true]
    simp only [FileTree.isFile, hl, FileTree.isAbsence, if_true]
  rw [hasFile_of_isFile hf] at h
  cases h

theorem fits_plan (hr : IsRegistered w) (hn : IsNullFree w) : Fits w w.plan where
  queueNodup := Plan.nodup_reloadQueue_compute _ _
  loadNodup := (holds_plan hr).loadNodup
  unloadNodup := (holds_plan hr).unloadNodup
  load p hp := (((holds_plan hr).load p).mp hp).1
  unload e he := (((holds_plan hr).unload e.1 e.2).mp he).1
  apart e he hq :=
    ((mem_reloadQueue_plan hr).mp hq).2.not_excluded (((holds_plan hr).unload e.1 e.2).mp he).2
  named p hp := by
    rcases hp with hl | ⟨-, hc⟩
    · rcases (((holds_plan hr).load p).mp hl).2.2 with hf | hu
      · exact named_of_hasFile hf
      · exact hn p (Or.inr hu)
    · exact hn p (Or.inl (Registry.contains_iff.mp hc))

theorem Tended.polled_plan {w w' : World} (h : Tended w.polled w') {plan : Plan Nat}
    (hf : Fits w plan) :
    Fits w' plan := by
  rw [h.frame]
  exact ⟨hf.1, hf.2, hf.3, hf.4, hf.5, hf.6, hf.7⟩

/-- The plan of a world is carried out once the watch was looked after. -/
theorem apply_plan {w₁ : World} (hr : IsRegistered w) (hn : IsNullFree w)
    (ht : Tended w.polled w₁) :
    ∃ w', apply w.plan w₁ = (.ok (Applied.extend { plan := w.plan } (w.reloads w.plan) w.plan.toLoad
        (w.plan.toUnload.map (·.1)) (w.commitOf w.plan)), w') ∧
      Remade w₁ (w.reloads w.plan ++ w.plan.toLoad) (w.plan.toUnload.map (·.1)) w' := by
  have hreg : w₁.registry = w.registry := by rw [ht.frame]; rfl
  have hlen : w₁.scripts = w.scripts := by rw [ht.frame]; rfl
  obtain ⟨w', h₂, hm⟩ :=
    apply_eq (w := w₁) (by rw [hreg]; exact hr.nodup) (ht.polled_plan (fits_plan hr hn))
  have hc : w₁.commitOf w.plan = w.commitOf w.plan := by
    simp only [commitOf, reloads, hreg, hlen]
  have hl : w₁.reloads w.plan = w.reloads w.plan := by simp only [reloads, hreg]
  rw [hc, hl] at h₂
  rw [hl] at hm
  exact ⟨w', h₂, hm⟩

/-- A cycle that has got its plan carries it out. -/
theorem cycle_of_planCycle {w₁ : World} (hr : IsRegistered w) (hn : IsNullFree w)
    (h₁ : planCycle w = (.ok w.plan, w₁)) (ht : Tended w.polled w₁) :
    ∃ w', cycle w = (.ok (Applied.extend { plan := w.plan } (w.reloads w.plan) w.plan.toLoad
        (w.plan.toUnload.map (·.1)) (w.commitOf w.plan)), w') ∧
      Remade w₁ (w.reloads w.plan ++ w.plan.toLoad) (w.plan.toUnload.map (·.1)) w' := by
  obtain ⟨w', h₂, hm⟩ := apply_plan hr hn ht
  exact ⟨w', (bind_of_ok h₁ _).trans h₂, hm⟩

/-- What a cycle does: it plans, and carries the plan out. -/
theorem cycle_eq (hr : IsRegistered w) (hw : IsSound w) (hf : IsReadable w) (hn : IsNullFree w) :
    ∃ w₁ w', Tended w.polled w₁ ∧
      cycle w = (.ok (Applied.extend { plan := w.plan } (w.reloads w.plan) w.plan.toLoad
        (w.plan.toUnload.map (·.1)) (w.commitOf w.plan)), w') ∧
      Remade w₁ (w.reloads w.plan ++ w.plan.toLoad) (w.plan.toUnload.map (·.1)) w' := by
  obtain ⟨w₁, h₁, ht⟩ := planCycle_eq hw hf
  obtain ⟨w', hc, hm⟩ := cycle_of_planCycle hr hn h₁ ht
  exact ⟨w₁, w', ht, hc, hm⟩

/-- Whether a path has got a new instance. -/
def IsFresh (w w' : World) (p : Path) : Prop :=
  ∃ n s, w'.registry.get? p = some n ∧ w.scripts.length ≤ n ∧ w'.script? n = some s ∧ s.path = p ∧
    s.state = .created

/-- What a cycle leads to, path by path. -/
structure Outcome (w : World) (done : Applied) (w' : World) : Prop where
  /-- Nothing else changes. -/
  frame : w' = { w with
    scripts := w'.scripts, registry := w'.registry, watch := w'.watch,
      watchStarted := w'.watchStarted
    journal := w'.journal }
  watch : w'.watch.map Watch.essence = w.polled.watch.map Watch.essence
  kept : w.scripts <+: w'.scripts
  registered : IsRegistered w'
  unloads : ∀ p n, w.registry.get? p = some n →
    (w'.registry.get? p = none ↔ p ∉ w.watched ∨ w.hasFile p = false ∨
      Plan.Deleted w.reported p ∧ ¬ Plan.Updated w.reported p)
  loads : ∀ p, w.registry.get? p = none →
    (IsFresh w w' p ↔ p ∈ w.watched ∧ (w.hasFile p = true ∨ Plan.Updated w.reported p)) ∧
      (¬ IsFresh w w' p → w'.registry.get? p = none)
  reloads : ∀ p n, w.registry.get? p = some n → w'.registry.get? p ≠ none →
    (IsFresh w w' p ↔ w.Closure p) ∧ (¬ IsFresh w w' p → w'.registry.get? p = some n)
  loaded : done.plan.loaded.Nodup ∧
    ∀ p, p ∈ done.plan.loaded ↔ w.registry.get? p = none ∧ w'.registry.get? p ≠ none
  reloaded : done.plan.reloaded.Nodup ∧
    ∀ p, p ∈ done.plan.reloaded ↔ w.registry.get? p ≠ none ∧ IsFresh w w' p
  unloaded : done.plan.unloaded.Nodup ∧
    ∀ p, p ∈ done.plan.unloaded ↔ w.registry.get? p ≠ none ∧ w'.registry.get? p = none

variable {fresh gone : List Path}

theorem Remade.script? (h : Remade w fresh gone w') {p : Path} (hp : p ∈ fresh) :
    w'.script? (w.scripts.length + fresh.idxOf p) = some (w.made p) := by
  have hi : fresh.idxOf p < fresh.length := List.idxOf_lt_length_of_mem hp
  rw [World.script?, h.scripts, List.getElem?_append_right (by omega), Nat.add_sub_cancel_left,
    List.getElem?_map, List.getElem?_eq_getElem hi, List.getElem_idxOf]
  rfl

/-- Exactly the remade paths have got a new instance. -/
theorem Remade.isFresh_iff (h : Remade w fresh gone w') (hr : IsRegistered w) {p : Path} :
    IsFresh w w' p ↔ p ∈ fresh := by
  constructor
  · rintro ⟨n, s, hn, hl, -⟩
    by_contra hp
    rw [h.registry, if_neg hp] at hn
    split at hn
    · cases hn
    · obtain ⟨s', hs, -⟩ := hr.script p n hn
      have := (List.getElem?_eq_some_iff.mp hs).1
      omega
  · intro hp
    refine ⟨_, _, ?_, Nat.le_add_right _ _, h.script? hp, rfl, rfl⟩
    rw [h.registry, if_pos hp]

theorem Remade.isRegistered (h : Remade w fresh gone w') (hr : IsRegistered w) :
    IsRegistered w' := by
  refine ⟨h.nodup, fun p n hn => ?_⟩
  rw [h.registry] at hn
  split at hn
  · rename_i hp
    cases hn
    exact ⟨_, h.script? hp, rfl⟩
  · split at hn
    · cases hn
    · obtain ⟨s, hs, hp⟩ := hr.script p n hn
      refine ⟨s, ?_, hp⟩
      have hl : n < w.scripts.length := (List.getElem?_eq_some_iff.mp hs).1
      rw [World.script?, h.scripts, List.getElem?_append_left hl]
      exact hs

theorem IsFresh.get?_ne_none {p : Path} (h : IsFresh w w' p) : w'.registry.get? p ≠ none := by
  obtain ⟨n, s, hn, -⟩ := h
  rw [hn]
  exact Option.some_ne_none n

section Cycle

/-! A cycle that was planned in `w` and carried out from `w₁` to `w'`. -/

variable {w₁ : World} (hr : IsRegistered w) (ht : Tended w.polled w₁)
  (hm : Remade w₁ (w.reloads w.plan ++ w.plan.toLoad) (w.plan.toUnload.map (·.1)) w')
include hr ht hm

omit hm in
theorem isRegistered_tended : IsRegistered w₁ := by
  rw [ht.frame]
  exact ⟨hr.nodup, hr.script⟩

theorem isFresh_cycle {p : Path} :
    IsFresh w w' p ↔ w.Loads p ∨ (∃ n, w.registry.get? p = some n) ∧ w.Closure p := by
  have hs : w₁.scripts = w.scripts := by rw [ht.frame]; rfl
  have hf : IsFresh w w' p ↔ IsFresh w₁ w' p := by rw [IsFresh, IsFresh, hs]
  rw [hf, hm.isFresh_iff (isRegistered_tended hr ht), List.mem_append, mem_reloads_plan hr,
    (holds_plan hr).load, or_comm]

theorem mem_remade_cycle {p : Path} :
    p ∈ w.reloads w.plan ++ w.plan.toLoad ↔ IsFresh w w' p := by
  rw [isFresh_cycle hr ht hm, List.mem_append, mem_reloads_plan hr, (holds_plan hr).load, or_comm]

theorem get?_cycle_of_unloads {p : Path} (h : w.Unloads p) : w'.registry.get? p = none := by
  have hp : p ∉ w.reloads w.plan ++ w.plan.toLoad := by
    rw [mem_remade_cycle hr ht hm, isFresh_cycle hr ht hm]
    rintro (hl | ⟨-, hc⟩)
    · obtain ⟨n, hn⟩ := h.1
      rw [hl.1] at hn
      cases hn
    · exact hc.not_excluded h
  rw [hm.registry, if_neg hp, if_pos ((mem_toUnload_plan hr).mpr h)]

theorem get?_cycle_of_not_fresh {p : Path} (h : ¬ IsFresh w w' p) (hu : ¬ w.Unloads p) :
    w'.registry.get? p = w.registry.get? p := by
  have hreg : w₁.registry = w.registry := by rw [ht.frame]; rfl
  rw [hm.registry, if_neg (fun hp => h ((mem_remade_cycle hr ht hm).mp hp)),
    if_neg (fun hg => hu ((mem_toUnload_plan hr).mp hg)), hreg]

theorem get?_cycle_eq_none_iff {p : Path} {n : Nat} (h : w.registry.get? p = some n) :
    w'.registry.get? p = none ↔ w.Unloads p := by
  refine ⟨fun hp => ?_, get?_cycle_of_unloads hr ht hm⟩
  by_contra hu
  have hnf : ¬ IsFresh w w' p := fun hfr => hfr.get?_ne_none hp
  rw [get?_cycle_of_not_fresh hr ht hm hnf hu, h] at hp
  cases hp

theorem isFresh_cycle_of_none {p : Path} (h : w.registry.get? p = none) :
    IsFresh w w' p ↔ w.Loads p := by
  rw [isFresh_cycle hr ht hm, h]
  simp

theorem isFresh_cycle_of_some {p : Path} {n : Nat} (h : w.registry.get? p = some n) :
    IsFresh w w' p ↔ w.Closure p := by
  have hl : ¬ w.Loads p := fun hl => by rw [hl.1] at h; cases h
  rw [isFresh_cycle hr ht hm]
  exact ⟨fun hp => (hp.resolve_left hl).2, fun hp => Or.inr ⟨⟨n, h⟩, hp⟩⟩

/-- What a plan has led to when it is carried out, path by path. -/
theorem outcome_of_remade :
    Outcome w (Applied.extend { plan := w.plan } (w.reloads w.plan) w.plan.toLoad
    (w.plan.toUnload.map (·.1)) (w.commitOf w.plan)) w' := by
  have hscr : w₁.scripts = w.scripts := by rw [ht.frame]; rfl
  obtain ⟨hloaded, hreloaded, hunloaded⟩ := (holds_plan hr).undone
  constructor
  case frame =>
    rw [hm.frame, ht.frame]
    rfl
  case watch =>
    rw [hm.frame]
    exact ht.watch
  case kept =>
    rw [hm.scripts, hscr]
    exact List.prefix_append _ _
  case registered => exact hm.isRegistered (isRegistered_tended hr ht)
  case unloads =>
    intro p n hp
    rw [get?_cycle_eq_none_iff hr ht hm hp]
    exact ⟨fun h => h.2, fun h => ⟨⟨n, hp⟩, h⟩⟩
  case loads =>
    intro p hp
    have hu : ¬ w.Unloads p := fun ⟨⟨n, hn⟩, _⟩ => by rw [hp] at hn; cases hn
    refine ⟨(isFresh_cycle_of_none hr ht hm hp).trans ⟨fun h => h.2, fun h => ⟨hp, h⟩⟩, fun h => ?_⟩
    rw [get?_cycle_of_not_fresh hr ht hm h hu, hp]
  case reloads =>
    intro p n hp hp'
    refine ⟨isFresh_cycle_of_some hr ht hm hp, fun h => ?_⟩
    rw [get?_cycle_of_not_fresh hr ht hm h fun hu => hp' (get?_cycle_of_unloads hr ht hm hu), hp]
  case loaded =>
    simp only [Applied.extend, hloaded, List.nil_append]
    refine ⟨(holds_plan hr).loadNodup, fun p => ?_⟩
    rw [(holds_plan hr).load]
    constructor
    · intro hl
      exact ⟨hl.1, ((isFresh_cycle_of_none hr ht hm hl.1).mpr hl).get?_ne_none⟩
    · rintro ⟨hp, hp'⟩
      by_contra hl
      have hu : ¬ w.Unloads p := fun ⟨⟨n, hn⟩, _⟩ => by rw [hp] at hn; cases hn
      have hnf : ¬ IsFresh w w' p := fun h => hl ((isFresh_cycle_of_none hr ht hm hp).mp h)
      rw [get?_cycle_of_not_fresh hr ht hm hnf hu] at hp'
      exact hp' hp
  case reloaded =>
    simp only [Applied.extend, hreloaded, List.nil_append]
    refine ⟨(Plan.nodup_reloadQueue_compute _ _).filter _, fun p => ?_⟩
    rw [mem_reloads_plan hr, Option.ne_none_iff_exists']
    constructor
    · rintro ⟨⟨n, hp⟩, h⟩
      exact ⟨⟨n, hp⟩, (isFresh_cycle_of_some hr ht hm hp).mpr h⟩
    · rintro ⟨⟨n, hp⟩, h⟩
      exact ⟨⟨n, hp⟩, (isFresh_cycle_of_some hr ht hm hp).mp h⟩
  case unloaded =>
    simp only [Applied.extend, hunloaded, List.nil_append]
    refine ⟨(holds_plan hr).unloadNodup, fun p => ?_⟩
    rw [mem_toUnload_plan hr, Option.ne_none_iff_exists']
    constructor
    · intro hu
      exact ⟨hu.1, get?_cycle_of_unloads hr ht hm hu⟩
    · rintro ⟨⟨n, hp⟩, hp'⟩
      exact (get?_cycle_eq_none_iff hr ht hm hp).mp hp'

end Cycle

/-- A cycle that fails because links lead a reported path round in a circle: what was reported is
gone, and of the world nothing but the watch and the journal has changed. -/
def LosesReports (w : World) : Prop :=
  ∃ argument w', cycle w = (.error (.raised "RuntimeError" argument), w') ∧ w'.reportedPaths = [] ∧
    w' = { w with watch := w'.watch, watchStarted := w'.watchStarted, journal := w'.journal }

/-- The outcome of a cycle: for every state, every file system that can be asked, and whatever
was reported, unless links lead a reported path round in a circle. -/
theorem cycle_outcome (hr : IsRegistered w) (hw : WatchRaises (fun _ => False) w)
    (hf : IsReadable w) (hn : IsNullFree w) :
    (HasForms w → ∃ done w', cycle w = (.ok done, w') ∧ Outcome w done w') ∧
      (¬HasForms w → LosesReports w) := by
  refine ⟨fun hforms => ?_, fun hcircle => ?_⟩
  · have hsound : IsSound w := ⟨hw, fun p hp e he => by rw [hforms p hp] at he; cases he⟩
    obtain ⟨w₁, w', ht, hc, hm⟩ := cycle_eq hr hsound hf hn
    exact ⟨_, w', hc, outcome_of_remade hr ht hm⟩
  · obtain ⟨argument, w', hp, ht⟩ := planCycle_of_circle hw hf hcircle
    refine ⟨argument, w', bind_of_error hp _, ht.reportedPaths.trans (reportedPaths_polled w), ?_⟩
    rw [ht.frame]
    rfl

/-- A host with one script that nobody watches any more, and a changed file that is watched. -/
def changing : World where
  root := ⟨.root, ["s"]⟩
  base := ⟨.root, ["s"]⟩
  files :=
    { here := ⟨.root, []⟩, nodes := [(["s"], .directory), (["s", "a"], .file (.text "") 0.0)] }
  scripts := [Script.create ⟨.relative, ["b"]⟩ none]
  registry := [(⟨.relative, ["b"]⟩, 0)]
  claims := [(⟨.relative, ["a"]⟩, 1)]
  watch := some (.scripted { events := [("a", "modified")] })

theorem isFile_changing : changing.files.isFile (changing.fileOf ⟨.relative, ["a"]⟩) = .ok true :=
  FileTree.isFile_entry rfl (by decide) (by decide) rfl

theorem reported_changing : changing.reported = [⟨⟨.relative, ["a"]⟩, .modified⟩] := by
  simp [reported, reports, changing, readChange, ChangeKind.ofWord?, Path.parse, Path.splitSlashes,
    Path.anchorOf, Path.isName]
  rfl

/-- The same host, told also of a path that leads through a link to itself. -/
def circling : World :=
  { changing with
    files :=
      { changing.files with nodes := changing.files.nodes ++ [(["l"], .link ⟨.root, ["l"]⟩)] }
    watch := some (.scripted { events := [("a", "modified"), ("/l/x", "modified")] }) }

theorem hasForms_changing : HasForms changing := by
  intro p hp
  refine circle?_of_relative ?_
  obtain rfl : p = Path.parse "a" := List.mem_singleton.mp hp
  decide

theorem walk_circling (fuel : Nat) :
    circling.files.walk fuel [] ["l", "x"] = .error .tooManyLinks := by
  induction fuel with
  | zero => rfl
  | succ fuel ih => exact ih

theorem circle?_circling : ∃ e, circling.circle? (Path.parse "/l/x") = some e := by
  have hpath : Path.parse "/l/x" = ⟨.root, ["l", "x"]⟩ := by decide
  have hnull : (⟨.root, ["l", "x"]⟩ : Path).hasNull = false := by
    rw [Path.hasNull_eq_false_iff]
    decide
  have hfollowed : circling.files.followed ⟨.root, ["l", "x"]⟩ = ⟨.root, ["l", "x"]⟩ := rfl
  have hfind : circling.files.find ⟨.root, ["l", "x"]⟩ = .error .tooManyLinks :=
    (if_neg (Bool.eq_false_iff.mp hnull)).trans (walk_circling _)
  obtain ⟨e, he⟩ : ∃ e, circling.files.circle? ⟨.root, ["l", "x"]⟩ = some e := by
    simp [FileTree.circle?, hnull, hfollowed, hfind]
  have hfar : (Path.relativeTo? ⟨.root, ["l", "x"]⟩ circling.root).isNone = true := by decide
  have habsolute : (⟨.root, ["l", "x"]⟩ : Path).isAbsolute = true := by decide
  refine ⟨e, ?_⟩
  rw [hpath, World.circle?, FileTree.circleUnder?, hfar, habsolute, hnull, he]
  rfl

theorem not_hasForms_circling : ¬HasForms circling := by
  intro h
  obtain ⟨e, he⟩ := circle?_circling
  rw [h _ (List.mem_cons_of_mem _ (List.mem_singleton.mpr rfl))] at he
  cases he

theorem reported_circling : circling.reported = [⟨⟨.relative, ["a"]⟩, .modified⟩] := by
  obtain ⟨e, he⟩ := circle?_circling
  have hcircle : circling.readChange ("/l/x", "modified") = .error e := by
    rw [readChange, normalize_error.mpr he]
  have hread : circling.readChange ("a", "modified") = .ok ⟨⟨.relative, ["a"]⟩, .modified⟩ := by
    have hform : circling.canonical (Path.parse "a") = ⟨.relative, ["a"]⟩ := by decide
    rw [readChange, normalize_of_none (circle?_of_relative (by decide)), hform]
    rfl
  have hreported : circling.reported =
      [circling.readChange ("a", "modified"), circling.readChange ("/l/x", "modified")].filterMap
        Except.toOption :=
    rfl
  rw [hreported, hcircle, hread]
  rfl

theorem isNullFree_changing (h : w.registry = changing.registry) (hroot : w.root = changing.root)
    (hc : w.reported = [⟨⟨.relative, ["a"]⟩, .modified⟩]) : IsNullFree w := by
  rintro p (⟨n, hn⟩ | ⟨c, hm, rfl, -⟩)
  · rw [h] at hn
    have hm := Registry.mem_of_get? hn
    simp only [changing, List.mem_singleton, Prod.mk.injEq] at hm
    obtain ⟨rfl, rfl⟩ := hm
    simp [IsNamed, Path.hasNull, fileOf, Path.join, hroot, changing, Path.isAbsolute]
  · rw [hc, List.mem_singleton] at hm
    subst hm
    simp [IsNamed, Path.hasNull, fileOf, Path.join, hroot, changing, Path.isAbsolute]

theorem isRegistered_changing : IsRegistered changing := by
  refine ⟨by decide, fun p n hn => ?_⟩
  have hm := Registry.mem_of_get? hn
  simp only [changing, List.mem_singleton, Prod.mk.injEq] at hm
  obtain ⟨rfl, rfl⟩ := hm
  exact ⟨_, rfl, rfl⟩

theorem watchRaises_scripted {events : List (String × String)}
    (hw : w.watch = some (.scripted { events }))
    (hk : ∀ event ∈ events, (ChangeKind.ofWord? event.2).isSome = true) :
    WatchRaises (fun _ => False) w := by
  intro x hx
  obtain rfl : x = _ := (Option.some.inj (hw.symm.trans hx)).symm
  have hnone : ∀ e, (none : Option Failure) = some e → e.isSystem = true ∨
    False := fun _ he => by cases he
  exact ⟨hnone, hnone, hnone, hnone, hnone, fun event he => Or.inl (hk event he)⟩

/-- The changed script is reloaded, unless a path that cannot be resolved is reported with it. -/
theorem cycle_outcome_changing :
    (∃ done w', cycle changing = (.ok done, w') ∧ Outcome changing done w') ∧
      LosesReports circling := by
  have hwatched {files : FileTree FileContent}
    (hf : files.isFile (changing.fileOf ⟨.relative, ["a"]⟩) = .ok true) :
      ∀ p ∈ changing.watched, ∃ b, files.isFile (changing.fileOf p) = .ok b := by
    intro p hp
    obtain rfl : p = ⟨.relative, ["a"]⟩ := List.mem_singleton.mp hp
    exact ⟨true, hf⟩
  have hfile : circling.files.isFile (changing.fileOf ⟨.relative, ["a"]⟩) = .ok true :=
    FileTree.isFile_entry rfl (by decide) (by decide) rfl
  constructor
  · refine (cycle_outcome (w := changing) isRegistered_changing ?_ (hwatched isFile_changing) ?_).1
      hasForms_changing
    · exact watchRaises_scripted rfl (by decide)
    · exact isNullFree_changing rfl rfl reported_changing
  · have hregistered : IsRegistered circling :=
      ⟨isRegistered_changing.nodup, isRegistered_changing.script⟩
    refine (cycle_outcome (w := circling) hregistered ?_ (hwatched hfile) ?_).2
      not_hasForms_circling
    · exact watchRaises_scripted rfl (by decide)
    · exact isNullFree_changing rfl rfl reported_circling

end World

end HotReload
