import HotReload.Host.Lifecycle
import HotReload.Proofs.Host.Outcome
import HotReload.Proofs.Path.Canonical
import Mathlib.Data.String.Basic

/-!
# Paths that cannot be asked for

A cycle asks of every watched path whether it leads to a file. One that cannot be asked for ends
the cycle before anything is polled or planned: all that the cycle has done by then is to look
after the watch. What was reported is still there, so that the first cycle after the path is gone
treats every other path as this one would have, had it taken the path to have no file.
-/
namespace HotReload.World

open Operation

variable {w w' w₁ v v₁ : World} {done : Applied} {p : Path}

/-- Plans a cycle with given answers for the files of the watched paths. -/
def planWith (answers : Path → Bool) : Act (Plan Nat) := do
  ensureWatch
  let watched := (← get).watched.map fun p => (p, answers p)
  let changes ← pollChanges
  rearmWatch
  let w ← get
  return Plan.compute w.registry w.dependencyTable watched changes

/-- A cycle with given answers for the files of the watched paths. -/
def cycleWith (answers : Path → Bool) : Act Applied := do
  apply (← planWith answers)

/-- Whether a path is watched and cannot be asked for. -/
def IsBlocked (w : World) (p : Path) : Prop :=
  p ∈ w.watched ∧ ∃ e, w.files.isFile (w.fileOf p) = .error e

theorem isReadable_iff : IsReadable w ↔ ∀ p, ¬IsBlocked w p := by
  constructor
  · rintro hr p ⟨hp, e, he⟩
    obtain ⟨b, hb⟩ := hr p hp
    rw [hb] at he
    cases he
  · intro hb p hp
    rcases hf : w.files.isFile (w.fileOf p) with e | b
    · exact absurd ⟨hp, e, hf⟩ (hb p)
    · exact ⟨b, rfl⟩

/-- A path that cannot be asked for counts as without a file. -/
theorem IsBlocked.hasFile (h : IsBlocked w p) : w.hasFile p = false := by
  obtain ⟨-, e, he⟩ := h
  rw [World.hasFile, he]
  rfl

/-- Planning with the answers that can be had ends with the plan. -/
theorem planWith_eq (hs : IsSound w) :
    ∃ w₁, planWith w.hasFile w = (.ok w.plan, w₁) ∧ Tended w.polled w₁ := by
  obtain ⟨⟨⟩, w₁, h₁, ht₁⟩ := (keeps_ensureWatch hs.watch w (tended_refl w)).succeeds
  obtain ⟨w₂, ht₂, ⟨h₂, -⟩ | ⟨e, -, he⟩⟩ := pollChanges_cases (ht₁.raises hs)
  on_goal 2 => exact he.elim
  have ht : Tended w.polled w₂ := ht₁.polled.trans ht₂
  obtain ⟨⟨⟩, w₃, h₃, ht₃⟩ :=
    (keeps_rearmWatch (ht.watchRaises (watchRaises_polled hs.watch)) w₂ (tended_refl w₂)).succeeds
  have ht' : Tended w.polled w₃ := ht.trans ht₃
  have hwatched : w₁.watched = w.watched := by rw [ht₁.frame]; rfl
  have hregistry : w₃.registry = w.registry := by rw [ht'.frame]; rfl
  have htable : w₃.dependencyTable = w.dependencyTable := by rw [ht'.frame]; rfl
  refine ⟨w₃, ?_, ht'⟩
  rw [planWith, bind_of_ok h₁, get_bind, bind_of_ok h₂, bind_of_ok h₃, get_bind, hwatched,
    hregistry, htable, ht₁.reported]
  rfl

/-- A cycle is planned with the answers that can be had, or ends with a path
that cannot be asked for. -/
theorem planCycle_or_blocked (hs : IsSound w) :
    IsReadable w ∧ planCycle w = planWith w.hasFile w ∨
      ∃ e p w₁, planCycle w = (.error e, w₁) ∧ p ∈ w.watched ∧
        w.files.isFile (w.fileOf p) = .error e ∧
        Tended w w₁ := by
  obtain ⟨⟨⟩, w₁, h₁, ht⟩ := (keeps_ensureWatch hs.watch w (tended_refl w)).succeeds
  have hfiles : w₁.watched.map (fun p => (p, w₁.hasFile p)) = w₁.watched.map fun p =>
    (p, w.hasFile p) := by
    rw [ht.frame]
    rfl
  rcases askFiles_cases w₁ w₁ w₁.watched with ⟨h₂, hr⟩ | ⟨e, p, h₂, -, hp, hpe⟩
  · refine Or.inl ⟨ht.isReadable.mp hr, ?_⟩
    rw [planCycle, planWith, bind_of_ok h₁, bind_of_ok h₁,
      bind_of_ok ((watchedFiles_eq w₁).trans h₂), get_bind, hfiles]
  · refine Or.inr ⟨e, p, w₁, ?_, ?_⟩
    · rw [planCycle, bind_of_ok h₁, bind_of_error ((watchedFiles_eq w₁).trans h₂)]
    · rw [ht.frame] at hp hpe
      exact ⟨hp, hpe, ht⟩

/-- Whether a world is rid of the paths that could not be asked for, and otherwise a cycle finds in
it what it found before. -/
structure Relieved (w w₁ : World) : Prop where
  scripts : w₁.scripts = w.scripts
  registry : w₁.registry = w.registry
  reported : w₁.reported = w.reported
  blocked : ∀ p, IsBlocked w p → p ∉ w₁.watched ∨ w₁.hasFile p = false
  watched : ∀ p, ¬IsBlocked w p → (p ∈ w₁.watched ↔ p ∈ w.watched)
  files : ∀ p ∈ w.watched, ¬IsBlocked w p → w₁.hasFile p = w.hasFile p
  readable : IsReadable w₁
  sound : IsSound w₁
  nullFree : IsNullFree w₁

/-- Whether two cycles treat a path alike: they load it, reload it, unload it or leave it alone. -/
structure TreatedAlike (w v w₁ v₁ : World) (p : Path) : Prop where
  gone : v₁.registry.get? p = none ↔ v.registry.get? p = none
  fresh : IsFresh w₁ v₁ p ↔ IsFresh w v p
  kept : ¬IsFresh w v p → v₁.registry.get? p = v.registry.get? p

/-- What becomes of a cycle, as against the one in which paths that cannot be
asked for have no file. -/
structure Waits (w : World) (done : Applied) (v : World) : Prop where
  /-- Where every path can be asked for, they are the same. -/
  readable : IsReadable w → cycle w = (.ok done, v)
  /-- Otherwise the cycle ends with what a watched path raised, and that is raised to whoever
  reconciles. Nothing else has changed, and what was reported is left for the first cycle that is
  rid of such paths: it treats all others alike. -/
  blocked : ¬IsReadable w → ∃ e p w', cycle w = (.error e, w') ∧ e.isSystem = true ∧ p ∈ w.watched ∧
    w.files.isFile (w.fileOf p) = .error e ∧ Tended w w' ∧
    (∀ host, w.isClosed = false → reconcile host w = (.error e, w')) ∧
    ∀ w₁, Relieved w' w₁ → ∃ done₁ v₁, cycle w₁ = (.ok done₁, v₁) ∧
      ∀ q, ¬IsBlocked w q → TreatedAlike w v w₁ v₁ q

theorem seeds_eq : w.Loads p ∨ w.Invalidates p ↔
    w.registry.get? p = none ∧ (p ∈ w.watched ∧ w.hasFile p = true ∨ Plan.Updated w.reported p) ∨
      Plan.Updated w.reported p ∧ (∃ n, w.registry.get? p = some n) ∧ ¬w.Unloads p := by
  have hi : w.Invalidates p ↔ Plan.Updated w.reported p ∧
      ((∃ n, w.registry.get? p = some n) ∧ ¬w.Unloads p ∨
        w.registry.get? p = none ∧ p ∉ w.watched) := Iff.rfl
  have hl : w.Loads p ↔ w.registry.get? p = none ∧ p ∈ w.watched ∧
    (w.hasFile p = true ∨ Plan.Updated w.reported p) := Iff.rfl
  rw [hi, hl]
  rcases w.registry.get? p with _ | n
  · by_cases hm : p ∈ w.watched <;> simp [hm, or_comm]
  · simp

namespace Relieved

variable (h : Relieved w w₁)
include h

theorem loads_iff (hp : ¬IsBlocked w p) : w₁.Loads p ↔ w.Loads p := by
  have hf : p ∈ w.watched → w₁.hasFile p = w.hasFile p := fun hm => h.files p hm hp
  simp only [Loads, Plan.Loads, h.registry, h.reported, h.watched p hp]
  exact and_congr_right fun _ => and_congr_right fun hm => by rw [hf hm]

theorem unloads_iff : w₁.Unloads p ↔ w.Unloads p := by
  simp only [Unloads, Plan.Unloads, h.registry, h.reported]
  refine and_congr_right fun _ => ?_
  by_cases hp : IsBlocked w p
  · rcases h.blocked p hp with hm | hf
    · simp only [hm, hp.hasFile, not_false_eq_true, true_or, or_true]
    · simp only [hf, hp.hasFile, true_or, or_true]
  · by_cases hm : p ∈ w.watched
    · rw [h.watched p hp, h.files p hm hp]
    · simp only [h.watched p hp, hm, not_false_eq_true, true_or]

theorem watchedFile_iff :
    p ∈ w₁.watched ∧ w₁.hasFile p = true ↔ p ∈ w.watched ∧ w.hasFile p = true := by
  by_cases hp : IsBlocked w p
  · have hnone : ¬w.hasFile p = true := by simp [hp.hasFile]
    refine iff_of_false (fun ⟨hm, hf⟩ => ?_) fun ⟨_, hf⟩ => hnone hf
    rw [(h.blocked p hp).resolve_left (not_not_intro hm)] at hf
    cases hf
  · rw [h.watched p hp]
    exact and_congr_right fun hm => by rw [h.files p hm hp]

/-- What is reached begins with the same paths. A reported path without an instance is loaded if it
is watched, and otherwise counts as a changed file: for its dependents that is the same. -/
theorem seeds_iff : w₁.Loads p ∨ w₁.Invalidates p ↔ w.Loads p ∨ w.Invalidates p := by
  rw [seeds_eq, seeds_eq, h.registry, h.reported, h.unloads_iff, h.watchedFile_iff]

theorem closure_iff : w₁.Closure p ↔ w.Closure p := by
  have hseeds : (fun p => w₁.Loads p ∨ w₁.Invalidates p) = fun p => w.Loads p ∨ w.Invalidates p :=
    funext fun p => propext h.seeds_iff
  have hunloads : w₁.Unloads = w.Unloads := funext fun p => propext h.unloads_iff
  have htable : w₁.dependencyTable = w.dependencyTable := by
    simp only [dependencyTable, World.script?, h.registry, h.scripts]
  rw [Closure, Closure, hseeds, hunloads, htable]

end Relieved

/-- What a world has become of that only its watch was looked after in is relieved like it. -/
theorem Relieved.of_tended (ht : Tended w w') (h : Relieved w' w₁) : Relieved w w₁ := by
  have hreported : w'.reported = w.reported := ht.reported
  obtain ⟨hs, hr, hrep, hb, hw, hf, hread, hsound, hnull⟩ := h
  rw [hreported] at hrep
  rw [ht.frame] at hs hr hb hw hf
  exact ⟨hs, hr, hrep, hb, hw, hf, hread, hsound, hnull⟩

theorem Relieved.isRegistered (h : Relieved w w₁) (hr : IsRegistered w) : IsRegistered w₁ := by
  refine ⟨h.registry ▸ hr.nodup, fun p n hn => ?_⟩
  rw [h.registry] at hn
  rw [script?, h.scripts]
  exact hr.script p n hn

/-- A cycle that is rid of the blocked paths treats the others as if those had had no file. -/
theorem treatedAlike (hr : IsRegistered w) (h : Relieved w w₁) {u u₁ : World}
    (ht : Tended w.polled u)
    (hm : Remade u (w.reloads w.plan ++ w.plan.toLoad) (w.plan.toUnload.map (·.1)) v)
    (ht₁ : Tended w₁.polled u₁)
    (hm₁ : Remade u₁ (w₁.reloads w₁.plan ++ w₁.plan.toLoad) (w₁.plan.toUnload.map (·.1)) v₁)
    (hp : ¬IsBlocked w p) : TreatedAlike w v w₁ v₁ p := by
  have hr₁ := h.isRegistered hr
  have hfresh : IsFresh w₁ v₁ p ↔ IsFresh w v p := by
    rw [isFresh_cycle hr ht hm, isFresh_cycle hr₁ ht₁ hm₁, h.loads_iff hp, h.closure_iff,
      h.registry]
  have hkept (hf : ¬IsFresh w v p) : v₁.registry.get? p = v.registry.get? p := by
    by_cases hu : w.Unloads p
    · rw [get?_cycle_of_unloads hr ht hm hu,
        get?_cycle_of_unloads hr₁ ht₁ hm₁ (h.unloads_iff.mpr hu)]
    · rw [get?_cycle_of_not_fresh hr ht hm hf hu,
        get?_cycle_of_not_fresh hr₁ ht₁ hm₁ (mt hfresh.mp hf)
        (mt h.unloads_iff.mp hu), h.registry]
  refine ⟨?_, hfresh, hkept⟩
  by_cases hf : IsFresh w v p
  · exact iff_of_false (hfresh.mpr hf).get?_ne_none hf.get?_ne_none
  · rw [hkept hf]

/-- Whether or not every watched path can be asked for, no path is treated differently because of
another one: at worst its cycle comes later. -/
theorem cycle_waits (hr : IsRegistered w) (hs : IsSound w) (hn : IsNullFree w) :
    ∃ done v, cycleWith w.hasFile w = (.ok done, v) ∧ Outcome w done v ∧ Waits w done v := by
  obtain ⟨u, hplan, ht⟩ := planWith_eq hs
  obtain ⟨v, happly, hm⟩ := apply_plan hr hn ht
  have hcycle := (bind_of_ok hplan apply).trans happly
  refine ⟨_, v, hcycle, outcome_of_remade hr ht hm, ?_⟩
  rcases planCycle_or_blocked hs with ⟨hread, hp⟩ | ⟨e, p, w', hp, hm', he, ht'⟩
  · refine ⟨fun _ => ?_, fun hnot => absurd hread hnot⟩
    rw [cycle, bind_of_ok (hp.trans hplan), happly]
  · have hnot : ¬IsReadable w := fun hread => isReadable_iff.mp hread p ⟨hm', e, he⟩
    refine ⟨fun hread => absurd hread hnot, fun _ => ?_⟩
    have hcycle' : cycle w = (.error e, w') := bind_of_error hp _
    refine ⟨e, p, w', hcycle', isFile_error he, hm', he, ht', fun host ho => ?_, fun w₁ hrel => ?_⟩
    · rw [reconcile, get_bind, if_neg (by rw [ho]; decide), bind_of_error hcycle']
    have h : Relieved w w₁ := hrel.of_tended ht'
    obtain ⟨u₁, v₁, ht₁, hc₁, hm₁⟩ := cycle_eq (h.isRegistered hr) h.sound h.readable h.nullFree
    exact ⟨_, v₁, hc₁, fun q hq => treatedAlike hr h ht hm ht₁ hm₁ hq⟩

/-- A name of so many letters. -/
def lettered (n : Nat) : String := String.ofList (List.replicate n 'x')

theorem utf8ByteSize_lettered (n : Nat) : (lettered n).utf8ByteSize = n := by
  rw [lettered, String.utf8ByteSize_ofList]
  induction n with
  | zero => rfl
  | succ n ih =>
    rw [List.replicate_succ, String.utf8Len_cons, ih]
    rfl

theorem null_notMem_lettered (n : Nat) : '\x00' ∉ (lettered n).toList := by simp [lettered]

theorem slash_notMem_lettered (n : Nat) : '/' ∉ (lettered n).toList := by simp [lettered]

theorem isName_lettered (n : Nat) : Path.isName (lettered (n + 1)).toList = true := by
  simp [lettered, Path.isName, List.replicate_succ]

theorem lettered_ne_of_size {n : Nat} {s : String} (h : n ≠ s.utf8ByteSize) : lettered n ≠ s := by
  intro hs
  exact h ((utf8ByteSize_lettered n).symm.trans (congrArg String.utf8ByteSize hs))

/-- A path whose name is too long for a file. -/
def longPath : Path := ⟨.relative, [lettered 256]⟩

theorem parse_lettered : Path.parse (lettered 256) = longPath :=
  Path.parse_of_plain (slash_notMem_lettered 256) (isName_lettered 255)

theorem longPath_ne_up : lettered 256 ≠ ".." := lettered_ne_of_size (by decide)

theorem form?_longPath (w : World) : w.form? longPath = some longPath := by
  refine form?_eq_some.mpr ⟨circle?_of_relative rfl, ?_⟩
  simp [canonical, Path.canonical, Path.fold, Path.foldParts, Path.foldStep, Path.isAbsolute,
    longPath, longPath_ne_up]

/-- Below a directory such a path cannot be asked for. -/
theorem isFile_longPath {nodes : List (Location × FileNode FileContent)}
    (hr : w.root = ⟨.root, ["s"]⟩)
    (hf : w.files = { here := ⟨.root, []⟩, nodes := (["s"], .directory) :: nodes }) :
    ∃ e, w.files.isFile (w.fileOf longPath) = .error e := by
  have hlong : FileTree.nameLimit < (lettered 256).utf8ByteSize := by
    rw [utf8ByteSize_lettered]
    decide
  simp [FileTree.isFile, FileTree.lookup, FileTree.find, FileTree.walk, FileTree.stepLimit,
    FileTree.node?, FileTree.isAbsence, Path.hasNull, Path.join, Path.isAbsolute, fileOf, longPath,
    hr, hf, hlong, longPath_ne_up, null_notMem_lettered]

/-- A host that watches a path that cannot be asked for, and one that has a file. -/
def overlong : World where
  root := ⟨.root, ["s"]⟩
  base := ⟨.root, ["s"]⟩
  files :=
    { here := ⟨.root, []⟩, nodes := [(["s"], .directory), (["s", "a"], .file (.text "") 0.0)] }
  claims := [(longPath, 1), (⟨.relative, ["a"]⟩, 1)]

theorem isFile_overlong : overlong.files.isFile (overlong.fileOf ⟨.relative, ["a"]⟩) = .ok true :=
  FileTree.isFile_entry rfl (by decide) (by decide) rfl

theorem isBlocked_overlong {p : Path} : IsBlocked overlong p ↔ p = longPath := by
  constructor
  · rintro ⟨hp, e, he⟩
    rcases List.mem_cons.mp hp with hp | hp
    · exact hp
    · rw [List.mem_singleton.mp hp, isFile_overlong] at he
      cases he
  · rintro rfl
    exact ⟨List.mem_cons_self .., isFile_longPath rfl rfl⟩

/-- Once the operator has stopped watching the path, the other one can be loaded. -/
theorem relieved_overlong :
    Relieved overlong { overlong with claims := [(⟨.relative, ["a"]⟩, 1)] } := by
  have hne : longPath ≠ ⟨.relative, ["a"]⟩ := fun h => by
    rw [longPath, Path.mk.injEq, List.cons.injEq] at h
    exact lettered_ne_of_size (by decide) h.2.1
  have hreported (w : World) (claims : ClaimCounts) : ({ w with claims } : World).reported =
    w.reported := rfl
  have hfile (w : World) (claims : ClaimCounts) (p : Path) :
      ({ w with claims } : World).files.isFile (({ w with claims } : World).fileOf p) =
        w.files.isFile (w.fileOf p) := rfl
  refine ⟨rfl, rfl, hreported _ _, fun p hp => ?_, fun p hp => ?_,
    fun p _ _ => by rw [hasFile, hfile, hasFile], fun p hp => ?_, isSound_of_none rfl, ?_⟩
  · rw [isBlocked_overlong] at hp
    exact Or.inl fun hm => hne (hp.symm.trans (List.mem_singleton.mp hm))
  · rw [isBlocked_overlong] at hp
    exact ⟨fun hm => List.mem_cons_of_mem _ hm, fun hm => (List.mem_cons.mp hm).resolve_left hp⟩
  · rw [List.mem_singleton.mp hp]
    exact ⟨true, (hfile _ _ _).trans isFile_overlong⟩
  · rintro p (⟨n, hn⟩ | ⟨c, hc, -⟩)
    · cases hn
    · cases hc

/-- The path that cannot be asked for ends the cycle; without it, the other one is loaded. -/
theorem cycle_waits_overlong : IsRegistered overlong ∧ IsSound overlong ∧ IsNullFree overlong ∧
    IsBlocked overlong longPath ∧ Relieved overlong
      { overlong with claims := [(⟨.relative, ["a"]⟩, 1)] } ∧
    ∃ done v, cycleWith overlong.hasFile overlong = (.ok done, v) ∧ Outcome overlong done v ∧
      Waits overlong done v := by
  have hr : IsRegistered overlong := ⟨List.nodup_nil, fun p n hn => by cases hn⟩
  have hs : IsSound overlong := isSound_of_none rfl
  have hn : IsNullFree overlong := by
    rintro p (⟨n, hn⟩ | ⟨c, hc, -⟩)
    · cases hn
    · cases hc
  exact ⟨hr, hs, hn, isBlocked_overlong.mpr rfl, relieved_overlong, cycle_waits hr hs hn⟩

end HotReload.World
