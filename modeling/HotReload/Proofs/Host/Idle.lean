import HotReload.Proofs.Change.Debouncer
import HotReload.Proofs.Host.History
import HotReload.Proofs.Host.Locality
import HotReload.Proofs.Host.Running

/-!
# Cycles with nothing to do

A cycle that takes in no changes has nothing to do exactly if the watched paths with a file
are the registered ones. So it is after a cycle whose reported changes agreed with the files,
and not after one that loaded a path although its file was missing, or unloaded a path although
its file was there.
-/
namespace HotReload

/-- What is reached is reached from something. -/
theorem DependencyTable.Closure.exists_seed {table : DependencyTable}
    {seed excluded : Path → Prop} {p : Path} (h : Closure table seed excluded p) : ∃ q, seed q := by
  induction h with
  | seed hs _ => exact ⟨_, hs⟩
  | dependent _ _ _ ih => exact ih

theorem Plan.isEmpty_iff {α : Type} {plan : Plan α} : plan.isEmpty = true ↔
    plan.toLoad = [] ∧ plan.toUnload = [] ∧ plan.toReload = [] ∧ plan.reloadQueue = [] := by
  simp [isEmpty, and_assoc]

namespace World

open Operation Moment

variable {R : Regime} {w₀ w w' : World}

/-- Whether the registered paths are the watched ones that have a file. -/
def IsSettled (w : World) : Prop :=
  ∀ p, (∃ n, w.registry.get? p = some n) ↔ p ∈ w.watched ∧ w.hasFile p = true

/-- Whether a cycle has nothing to do and, apart from looking after the watch, changes nothing. -/
def IsIdle (w : World) : Prop :=
  ∀ host, ∃ plan w', reconcile host w = (.ok plan, w') ∧ plan.isEmpty = true ∧
    plan.changed = false ∧ Tended w w'

/-- Whether the reported changes agree with the files of watched paths, as far as they
decide what is registered. -/
structure Faithful (w : World) : Prop where
  /-- What is loaded because it was created or modified has a file. -/
  updated : ∀ p ∈ w.watched, w.registry.get? p = none → Plan.Updated w.reported p →
    w.hasFile p = true
  /-- What is unloaded because it was deleted has none. -/
  deleted : ∀ p ∈ w.watched, w.registry.get? p ≠ none → Plan.Deleted w.reported p →
    ¬Plan.Updated w.reported p → w.hasFile p = false

theorem not_reported (hq : w.reported = []) (p : Path) :
    ¬Plan.Updated w.reported p ∧ ¬Plan.Deleted w.reported p := by
  rw [hq]
  constructor <;> rintro ⟨c, hc, -⟩ <;> cases hc

/-- What was reported is not reported again at once. -/
theorem reported_polled (w : World) : w.polled.reported = [] := by
  rcases hx : w.watch with _ | s | d
  · simp only [reported, polled, hx, Option.map_none, Option.elim_none]
  · simp only [reported, polled, hx, Option.map_some, Option.elim_some, Watch.polled, reports]
    split
    · rfl
    · rfl
  · simp only [reported, polled, hx, Option.map_some, Option.elim_some, Watch.polled, reports,
      Debouncer.drain_drain, List.map_nil]

/-- A poll that answers nothing takes nothing out of the watch. -/
theorem polled_of_reported (hw : IsSound w) (hq : w.reported = []) : w.polled = w := by
  have hwatch : w.watch.map (Watch.polled w.now) = w.watch := by
    rcases hx : w.watch with _ | s | d
    · rfl
    · rw [reported, hx, Option.elim_some, reports] at hq
      by_cases hp : s.pollError.isSome = true
      · rw [Option.map_some, Watch.polled, if_pos hp]
      · rw [if_neg hp, List.filterMap_eq_nil_iff] at hq
        have hnone : s.events = [] := by
          refine List.eq_nil_iff_forall_not_mem.mpr fun event he => ?_
          obtain ⟨kind, hk⟩ :=
            Option.isSome_iff_exists.mp (((hw.watch _ hx).kinds event he).resolve_right id)
          have hpath : Path.parse event.1 ∈ w.reportedPaths := by
            rw [reportedPaths, hx, Option.elim_some, Watch.paths, if_neg hp]
            exact List.mem_map_of_mem he
          have hc : w.circle? (Path.parse event.1) = none :=
            Option.eq_none_iff_forall_ne_some.mpr fun e hc => hw.paths _ hpath e hc
          have hread := hq _ (List.mem_map_of_mem he)
          rw [readChange_of_none hc hk] at hread
          cases hread
        rw [Option.map_some, Watch.polled, if_neg hp, ← hnone]
    · rw [reported, hx, Option.elim_some, reports, List.map_eq_nil_iff] at hq
      rw [Option.map_some, Watch.polled, Debouncer.drain_of_none hq]
  rw [polled, hwatch]

/-- Without reported changes a plan is empty where what is registered fits the files. -/
theorem isEmpty_plan (hr : IsRegistered w) (hq : w.reported = []) :
    w.plan.isEmpty = true ↔ IsSettled w := by
  have h := holds_plan hr
  rw [Plan.isEmpty_iff]
  constructor
  · rintro ⟨hload, hunload, -, -⟩ p
    constructor
    · rintro ⟨n, hn⟩
      by_contra hnot
      have hvanishes : p ∉ w.watched ∨ w.hasFile p = false := by
        by_cases hw : p ∈ w.watched
        · exact Or.inr (Bool.eq_false_iff.mpr fun hf => hnot ⟨hw, hf⟩)
        · exact Or.inl hw
      have hu : w.Unloads p := ⟨⟨n, hn⟩, hvanishes.imp_right Or.inl⟩
      have hm := (h.unload p n).mpr ⟨hn, hu⟩
      rw [hunload] at hm
      cases hm
    · rintro ⟨hw, hf⟩
      apply Option.ne_none_iff_exists'.mp
      intro hnone
      have hm := (h.load p).mpr ⟨hnone, hw, Or.inl hf⟩
      rw [hload] at hm
      cases hm
  · intro hs
    have hload : ∀ p, ¬w.Loads p := by
      rintro p ⟨hnone, hw, hf⟩
      obtain ⟨n, hn⟩ := (hs p).mpr ⟨hw, hf.resolve_right (not_reported hq p).1⟩
      rw [hnone] at hn
      cases hn
    have hinvalid : ∀ p, ¬w.Invalidates p := fun p hi => (not_reported hq p).1 hi.1
    have hunload : ∀ p, ¬w.Unloads p := by
      rintro p ⟨hn, hu⟩
      obtain ⟨hw, hf⟩ := (hs p).mp hn
      rcases hu with hu | hu | hu
      · exact hu hw
      · rw [hf] at hu
        cases hu
      · exact (not_reported hq p).2 hu.1
    refine ⟨?_, ?_, ?_, ?_⟩ <;> refine List.eq_nil_iff_forall_not_mem.mpr fun p hp => ?_
    · exact hload p ((h.load p).mp hp)
    · exact hunload p.1 ((h.unload p.1 p.2).mp hp).2
    · exact hinvalid p ((h.reload p).mp hp)
    · obtain ⟨q, hq⟩ := ((mem_reloadQueue_plan hr).mp hp).2.exists_seed
      exact hq.elim (hload q) (hinvalid q)

/-- What was reported decides nothing where nothing is loaded or unloaded. -/
theorem faithful_of_kept (hr : IsRegistered w) (hl : w.plan.toLoad = [])
    (hu : w.plan.toUnload = []) : Faithful w where
  updated p hw hnone hupdated := by
    have hm := ((holds_plan hr).load p).mpr ⟨hnone, hw, Or.inr hupdated⟩
    rw [hl] at hm
    cases hm
  deleted p hw hne hd hnot := by
    obtain ⟨n, hn⟩ := Option.ne_none_iff_exists'.mp hne
    have hm := ((holds_plan hr).unload p n).mpr ⟨hn, ⟨n, hn⟩, Or.inr (Or.inr ⟨hd, hnot⟩)⟩
    rw [hu] at hm
    cases hm

/-- Carrying out an empty plan changes nothing. -/
theorem apply_of_isEmpty {plan : Plan Nat} (h : plan.isEmpty = true) (w : World) :
    apply plan w = (.ok { plan }, w) := by
  obtain ⟨hload, hunload, -, hqueue⟩ := Plan.isEmpty_iff.mp h
  rw [apply, hload, hunload, hqueue]
  rfl

/-- What a cycle answers is the plan that it carried out. -/
theorem reconcile_ok {host : HostRequest → Act HostAnswer} {plan : Plan Nat}
    (ho : w.isClosed = false) (h : reconcile host w = (.ok plan, w')) :
    ∃ done w₁, cycle w = (.ok done, w₁) ∧ plan = done.plan := by
  rw [reconcile, get_bind, if_neg (by rw [ho]; decide)] at h
  obtain ⟨done, w₁, hc, h⟩ := bind_eq_ok h
  refine ⟨done, w₁, hc, ?_⟩
  dsimp only at h
  split at h
  · obtain ⟨result, w₂, -, h⟩ := bind_eq_ok h
    cases result with
    | ok _ =>
      cases h
      rfl
    | error e =>
      obtain ⟨-, w₃, -, h⟩ := bind_eq_ok h
      obtain ⟨-, w₄, -, h⟩ := bind_eq_ok h
      cases h
      rfl
  · cases h
    rfl

/-- A host that was shut down has nothing to do. -/
theorem isIdle_of_isClosed (hc : w.isClosed = true) : IsIdle w := by
  intro host
  refine ⟨{}, w, ?_, rfl, rfl, tended_refl w⟩
  rw [reconcile, get_bind, if_pos hc]
  rfl

theorem isIdle_of_isSettled (hr : IsRegistered w) (ho : w.isClosed = false) (hw : IsSound w)
    (hf : IsReadable w) (hq : w.reported = []) (hs : IsSettled w) : IsIdle w := by
  intro host
  obtain ⟨w₁, hp, ht⟩ := planCycle_eq hw hf
  have hempty := (isEmpty_plan hr hq).mpr hs
  have hc : cycle w = (.ok { plan := w.plan }, w₁) :=
    (bind_of_ok hp _).trans (apply_of_isEmpty hempty w₁)
  rw [polled_of_reported hw hq] at ht
  refine ⟨w.plan, w₁, ?_, hempty, ?_, ht⟩
  · rw [reconcile, get_bind, if_neg (by rw [ho]; decide), bind_of_ok hc]
    rfl
  · obtain ⟨hl, hre, hu⟩ := (holds_plan hr).undone
    simp [Plan.changed, hl, hre, hu]

theorem isIdle_iff (hr : IsRegistered w) (hn : IsNullFree w) (ho : w.isClosed = false)
    (hw : IsSound w) (hf : IsReadable w) (hq : w.reported = []) : IsIdle w ↔ IsSettled w := by
  refine ⟨fun h => ?_, isIdle_of_isSettled hr ho hw hf hq⟩
  obtain ⟨plan, w₁, h₁, hempty, -⟩ := h (hostAt 0)
  obtain ⟨done, w₂, hc, rfl⟩ := reconcile_ok ho h₁
  obtain ⟨w₃, w₄, -, hc', -⟩ := cycle_eq hr hw hf hn
  obtain rfl : done = _ := Except.ok.inj (congrArg Prod.fst (hc.symm.trans hc'))
  exact (isEmpty_plan hr hq).mp hempty

/-- Where what is registered does not fit the files, the next cycle has something to do. -/
theorem Reached.busy {m₀ : Moment} {K : List Duty} (h : Reached R m₀ K w) (depth : Nat)
    (ho : w.isClosed = false) (hw : IsSound w) (hf : IsReadable w) (hq : w.reported = [])
    (hs : ¬IsSettled w) :
    ∃ plan w', reconcile (hostAt depth) w = (.ok plan, w') ∧ plan.isEmpty = false := by
  obtain ⟨w₁, w₂, -, hc, -⟩ := cycle_eq h.sane.registered hw hf (h.tame.isNullFree h.sane.named)
  obtain ⟨w₃, hr, -⟩ := reconcile_of_cycle (serves_hostAt depth) (h.cycle_ok ho hc) ho hc
  refine ⟨_, w₃, hr, Bool.eq_false_iff.mpr fun he => hs ?_⟩
  exact (isEmpty_plan h.sane.registered hq).mp he

/-- Whether the files and the watched paths are the same. -/
structure Unmoved (w w' : World) : Prop where
  files : w'.files = w.files
  watched : ∀ p, p ∈ w'.watched ↔ p ∈ w.watched

theorem Unmoved.trans {w'' : World} (h : Unmoved w w') (h' : Unmoved w' w'') : Unmoved w w'' :=
  ⟨h'.files.trans h.files, fun p => (h'.watched p).trans (h.watched p)⟩

theorem Unmoved.symm (h : Unmoved w w') : Unmoved w' w :=
  ⟨h.files.symm, fun p => (h.watched p).symm⟩

/-- Whether what is registered fits the files does not depend on anything else. -/
theorem Unmoved.isSettled_iff (h : Unmoved w w') (hroot : w'.root = w.root)
    (hr : w'.registry = w.registry) :
    IsSettled w' ↔ IsSettled w := by
  have hfile (p : Path) : w'.hasFile p = w.hasFile p := by
    rw [hasFile, hasFile, fileOf, fileOf, h.files, hroot]
  simp only [IsSettled, hr, h.watched, hfile]

theorem Unmoved.isReadable (h : Unmoved w w') (hroot : w'.root = w.root) (hf : IsReadable w) :
    IsReadable w' := by
  intro p hp
  rw [fileOf, h.files, hroot]
  exact hf p ((h.watched p).mp hp)

/-- A cycle leaves what is registered fitting the files exactly if what was
reported agreed with them. -/
theorem Outcome.isSettled_iff {done : Applied} (h : Outcome w done w') :
    IsSettled w' ↔ Faithful w := by
  have hwatched : w'.watched = w.watched := by
    rw [h.frame]
    rfl
  have hfile : w'.hasFile = w.hasFile := by
    rw [h.frame]
    rfl
  have hfresh (p : Path) (hp : w.registry.get? p = none) :
      (∃ n, w'.registry.get? p = some n) ↔ p ∈ w.watched ∧
        (w.hasFile p = true ∨ Plan.Updated w.reported p) := by
    rw [← (h.loads p hp).1, ← Option.ne_none_iff_exists']
    exact ⟨fun hne => Classical.byContradiction fun hn => hne ((h.loads p hp).2 hn),
      IsFresh.get?_ne_none⟩
  have hkept (p : Path) (n : Nat) (hp : w.registry.get? p = some n) :
      (∃ n, w'.registry.get? p = some n) ↔ p ∈ w.watched ∧ w.hasFile p = true ∧
        ¬(Plan.Deleted w.reported p ∧ ¬Plan.Updated w.reported p) := by
    rw [← Option.ne_none_iff_exists', ne_eq, h.unloads p n hp, not_or, not_or, not_not,
      Bool.not_eq_false]
  rw [IsSettled, hwatched, hfile]
  constructor
  · intro hs
    constructor
    · intro p hw hp hu
      exact ((hs p).mp ((hfresh p hp).mpr ⟨hw, Or.inr hu⟩)).2
    · intro p hw hne hd hu
      obtain ⟨n, hp⟩ := Option.ne_none_iff_exists'.mp hne
      rw [Bool.eq_false_iff]
      intro hf
      exact ((hkept p n hp).mp ((hs p).mpr ⟨hw, hf⟩)).2.2 ⟨hd, hu⟩
  · intro hf p
    cases hp : w.registry.get? p with
    | none =>
      rw [hfresh p hp]
      exact ⟨fun ⟨hw, hu⟩ => ⟨hw, hu.elim id (hf.updated p hw hp)⟩, fun ⟨hw, hu⟩ => ⟨hw, Or.inl hu⟩⟩
    | some n =>
      rw [hkept p n hp]
      refine ⟨fun ⟨hw, hu, _⟩ => ⟨hw, hu⟩, fun ⟨hw, hu⟩ => ⟨hw, hu, fun ⟨hd, hnot⟩ => ?_⟩⟩
      have hgone := hf.deleted p hw (by rw [hp]; exact Option.some_ne_none n) hd hnot
      rw [hu] at hgone
      cases hgone

/-- What is reported depends on the watch and the files. -/
theorem Upheld.reported (h : Upheld w w') (hf : w'.files = w.files) : w'.reported = w.reported := by
  have hcanonical : w'.canonical = w.canonical := by
    funext p
    rw [canonical, canonical, hf, h.root]
  have hcircle : w'.circle? = w.circle? := by
    funext p
    rw [circle?, circle?, hf, h.root]
  have hread : w'.readChange = w.readChange := by
    funext event
    rw [readChange, readChange, normalize, normalize, hcircle, hcanonical]
  have hreports : w'.reports = w.reports := by
    funext x
    cases x with
    | scripted s => rw [reports, reports, hread]
    | directory d => rw [reports, reports, hcanonical, h.now]
  rw [World.reported, World.reported, h.watch, hreports]

/-- What is sound depends on them too. -/
theorem Upheld.isSound (h : Upheld w w') (hf : w'.files = w.files) (hw : IsSound w) :
    IsSound w' where
  watch x hx := hw.watch x (h.watch.symm.trans hx)
  paths p hp e he := by
    rw [reportedPaths, h.watch, h.now] at hp
    rw [circle?, hf, h.root] at he
    exact hw.paths p hp e he

theorem Outcome.unmoved {done : Applied} (h : Outcome w done w') : Unmoved w w' := by
  rw [h.frame]
  exact ⟨rfl, fun p => Iff.rfl⟩

/-- A step while the files and the watched paths stay the same, and what is taken in by a cycle on
the way agrees with the files. -/
structure Undisturbed (R : Regime) (w : World) (m m' : Moment) : Prop where
  step : Step R m m'
  unmoved : Unmoved w m'.world
  faithful : m'.world.registry ≠ m.world.registry → Faithful m.world

/-- Undisturbed steps leave what is registered fitting the files. -/
theorem Undisturbed.isSettled {m m' : Moment} (h : Undisturbed R w m m') (hs : m.IsSane)
    (hm : Unmoved w m.world) (ho : m'.world.isClosed = false) (hfit : IsSettled m.world) :
    IsSettled m'.world := by
  by_cases hr : m'.world.registry = m.world.registry
  · exact ((hm.symm.trans h.unmoved).isSettled_iff h.step.root hr).mpr hfit
  · rcases h.step.registry with hsame | ⟨hclosed, -⟩ | ⟨w₁, ht, -, hmade, -⟩
    · exact absurd hsame hr
    · rw [ho] at hclosed
      cases hclosed
    · exact (outcome_of_remade hs.registered ht hmade).isSettled_iff.mpr (h.faithful hr)

/-- What holds at a moment that undisturbed steps lead to. -/
structure IsUpright (w : World) (m : Moment) : Prop where
  sane : m.IsSane
  root : m.world.root = w.root
  unmoved : Unmoved w m.world
  settled : m.world.isClosed = false → IsSettled m.world

theorem IsUpright.run {m m' : Moment} (h : IsUpright w m)
    (hrun : Relation.ReflTransGen (Undisturbed R w) m m') : IsUpright w m' := by
  induction hrun with
  | refl => exact h
  | tail _ hstep ih =>
    refine ⟨hstep.step.isSane ih.sane, hstep.step.root.trans ih.root, hstep.unmoved, fun ho => ?_⟩
    have hopen := Bool.eq_false_iff.mpr fun hc => Bool.eq_false_iff.mp ho (hstep.step.isClosed hc)
    exact hstep.isSettled ih.sane ih.unmoved ho (ih.settled hopen)

theorem IsUpright.isIdle {m : Moment} (h : IsUpright w m) (hf : IsReadable w) (hw : IsSound m.world)
    (hq : m.world.reported = []) : IsIdle m.world := by
  by_cases hc : m.world.isClosed = true
  · exact isIdle_of_isClosed hc
  · have ho := Bool.eq_false_iff.mpr hc
    exact isIdle_of_isSettled h.sane.registered ho hw (h.unmoved.isReadable h.root hf) hq
      (h.settled ho)

/-- What the next cycle finds after a cycle of an open host. -/
structure Repeats (R : Regime) (w : World) (done : Applied) (w' : World) : Prop where
  /-- Before the commit of the cycle the next one has nothing to do exactly if the changes that were
  taken in agreed with the files. -/
  planned : IsIdle w' ↔ Faithful w
  /-- Whoever carries the commit out, and whatever scripts ask of the host meanwhile. -/
  walk : ∀ depth, ∃ w₁, reconcile (hostAt depth) w = (.ok done.plan, w₁) ∧
    Walk R ⟨w', [.commit done.commit]⟩ ⟨w₁, []⟩
  undisturbed : Faithful w → ∀ m,
    Relation.ReflTransGen (Undisturbed R w) ⟨w', [.commit done.commit]⟩ m →
    IsSound m.world → m.world.reported = [] → IsIdle m.world
  /-- Where scripts ask nothing of the host, files and watched paths need only
  be the same in the end. -/
  committed : IsTame R.silent w → ∀ depth plan w₁, reconcile (hostAt depth) w = (.ok plan, w₁) →
    Unmoved w w₁ →
    (IsIdle w₁ ↔ Faithful w)

section Cycle

/-! A cycle that was planned in `w` and carried out from `w₁` to `w'`. -/

variable {w₁ : World} (ht : Tended w.polled w₁)
  (hm : Remade w₁ (w.reloads w.plan ++ w.plan.toLoad) (w.plan.toUnload.map (·.1)) w')
include ht hm

theorem reported_cycle : w'.reported = [] := by
  have hsame : w'.reported = w₁.reported := by
    rw [hm.frame]
    rfl
  rw [hsame, ht.reported, reported_polled]

theorem isSound_cycle (hw : IsSound w) : IsSound w' := by
  have hraises : IsSound w₁ := ht.raises (raises_polled hw)
  rw [hm.frame]
  exact ⟨hraises.watch, hraises.paths⟩

/-- A second cycle, after a commit that has left alone what it starts from. -/
theorem isIdle_iff_of_upheld (hr : IsRegistered w) (ho : w.isClosed = false) (hw : IsSound w)
    (hf : IsReadable w) {m₀ : Moment} {K : List Duty} {w₂ : World} (h₂ : Reached R m₀ K w₂)
    (hkept : Upheld w' w₂) (hmoved : Unmoved w w₂) : IsIdle w₂ ↔ Faithful w := by
  have hout := outcome_of_remade hr ht hm
  have hroot : w₂.root = w.root := by rw [hkept.root, hout.frame]
  have hopen : w₂.isClosed = false := by
    rw [hkept.isClosed, hout.frame]
    exact ho
  have hbetween : Unmoved w' w₂ := hout.unmoved.symm.trans hmoved
  have hsound : IsSound w₂ := hkept.isSound hbetween.files (isSound_cycle ht hm hw)
  have hq : w₂.reported = [] := (hkept.reported hbetween.files).trans (reported_cycle ht hm)
  rw [isIdle_iff h₂.sane.registered (h₂.tame.isNullFree h₂.sane.named) hopen hsound
    (hmoved.isReadable hroot hf) hq, ← hout.isSettled_iff]
  exact hbetween.isSettled_iff hkept.root hkept.registry

end Cycle

/-- A host that is told of a new file. -/
def told (nodes : List (Location × FileNode FileContent)) : World where
  root := ⟨.root, ["s"]⟩
  base := ⟨.root, ["s"]⟩
  files := { here := ⟨.root, []⟩, nodes := (["s"], .directory) :: nodes }
  watch := some (.scripted { events := [("a", "created")] })

theorem isTame_told {nodes : List (Location × FileNode FileContent)}
    (hn : ∀ node ∈ nodes, node.2.IsTame .all) :
    (told nodes).IsTame .all where
  root := by simp [told, Path.hasNull]
  here := by simp [told, Path.hasNull]
  nodes := List.forall_mem_cons.mpr ⟨trivial, hn⟩
  tree := trivial
  raises := by
    rintro x ⟨⟩
    constructor <;> simp
    exact Or.inl rfl
  named := by
    rintro x ⟨⟩
    refine List.forall_mem_singleton.mpr ?_
    rw [Path.hasNull_eq_false_iff]
    decide
  refusal e he := by cases he
  resources s hs := by cases hs

/-- The operator watches the path of the file. -/
def expectant (nodes : List (Location × FileNode FileContent)) : World :=
  (host (.watch ["a"]) (told nodes)).2

theorem history_expectant (nodes : List (Location × FileNode FileContent)) :
    History .all (told nodes) (expectant nodes) :=
  .request depthLimit (.watch ["a"]) .refl trivial trivial

theorem watched_expectant (nodes : List (Location × FileNode FileContent)) :
    (expectant nodes).watched = [⟨.relative, ["a"]⟩] := rfl

theorem isSound_expectant (nodes : List (Location × FileNode FileContent)) :
    IsSound (expectant nodes) := by
  refine isSound_of_relative ?_ fun p hp => ?_
  · rintro x ⟨⟩
    constructor <;> simp
    rfl
  · obtain rfl : p = Path.parse "a" := List.mem_singleton.mp hp
    decide

/-- A commit that runs one instance, whose file is missing, leaves files and claims alone. -/
theorem commit_of_missing (host : HostRequest → Act HostAnswer) {n : Nat} {s : Script}
    (hs : w.script? n = some s) (hc : s.state = .created)
    (hf : w.files.lookup (w.files.here.join (w.fileOf s.path)).fold = .error .notFound) :
    ∃ w', commit host ⟨[n], []⟩ w = (.ok (), w') ∧ Unmoved w w' ∧ Upheld w w' := by
  let e : Failure := .file .notFound (w.files.here.join (w.fileOf s.path)).fold.toText
  have hload : loadBody s (w.started n s) = (.error e, w.started n s) := by
    have hlookup : (w.started n s).files.lookup ((w.started n s).files.here.join
        ((w.started n s).fileOf s.path)).fold = .error .notFound := hf
    rw [loadBody, get_bind, hlookup]
    rfl
  have hbody : runBody host n s w = (.error e, w.started n s) := bind_of_error hload _
  refine ⟨_, commit_of_run hs (run_of_ordinary hs hc hbody rfl), ⟨rfl, fun _ => Iff.rfl⟩, rfl, rfl,
    rfl, rfl, rfl⟩

theorem lookup_expectant : (expectant []).files.lookup ⟨.root, ["s", "a"]⟩ = .error .notFound :=
  FileTree.lookup_missing rfl (by decide) (by decide) rfl

theorem isFile_expectant :
    (expectant []).files.isFile ((expectant []).fileOf ⟨.relative, ["a"]⟩) = .ok false := by
  have hplace : (expectant []).fileOf ⟨.relative, ["a"]⟩ = ⟨.root, ["s", "a"]⟩ := rfl
  rw [hplace, FileTree.isFile, lookup_expectant]
  rfl

theorem reported_expectant : (expectant []).reported = [⟨⟨.relative, ["a"]⟩, .created⟩] := rfl

theorem plan_expectant : (expectant []).plan = { toLoad := [⟨.relative, ["a"]⟩] } := by
  rw [plan, watched_expectant, reported_expectant, List.map_singleton,
    hasFile_of_isFile isFile_expectant]
  rfl

theorem isReadable_expectant : IsReadable (expectant []) := by
  intro p hp
  rw [watched_expectant, List.mem_singleton] at hp
  subst hp
  exact ⟨false, isFile_expectant⟩

/-- What is reported of the path does not agree with the files. -/
theorem not_faithful_expectant : ¬Faithful (expectant []) := by
  intro hf
  have hupdated : Plan.Updated (expectant []).reported ⟨.relative, ["a"]⟩ :=
    ⟨_, List.mem_singleton.mpr rfl, rfl, by decide⟩
  have hfile : (expectant []).hasFile ⟨.relative, ["a"]⟩ = true :=
    hf.updated _ (List.mem_singleton.mpr rfl) rfl hupdated
  rw [hasFile_of_isFile isFile_expectant] at hfile
  cases hfile

/-- The path is loaded, and the commit leaves alone what the next cycle starts from. -/
theorem cycle_expectant (host : HostRequest → Act HostAnswer) : ∃ w w' done w₁,
    Tended (expectant []).polled w ∧
    Remade w ((expectant []).reloads (expectant []).plan ++ (expectant []).plan.toLoad)
      ((expectant []).plan.toUnload.map (·.1)) w' ∧
    cycle (expectant []) = (.ok done, w') ∧ commit host done.commit w' = (.ok (), w₁) ∧
      Unmoved w' w₁ ∧
    Upheld w' w₁ := by
  have hnew : (told []).IsNew := ⟨rfl, rfl, rfl, rfl, rfl, rfl⟩
  obtain ⟨-, hsane, htame⟩ := (history_expectant []).linked hnew.isSane (isTame_told (by simp))
  obtain ⟨w, w', ht, hc, hm⟩ :=
    cycle_eq hsane.registered (isSound_expectant []) isReadable_expectant
      (htame.isNullFree hsane.named)
  have hmade : w'.script? 0 = some (w.made ⟨.relative, ["a"]⟩) := by
    have hfresh : (⟨.relative, ["a"]⟩ : Path) ∈ (expectant []).reloads (expectant []).plan ++
        (expectant []).plan.toLoad := by
      rw [plan_expectant]
      exact List.mem_append_right _ (List.mem_singleton.mpr rfl)
    have hfirst := hm.script? hfresh
    have hnone : w.scripts = [] := by
      rw [ht.frame]
      rfl
    rw [hnone, plan_expectant] at hfirst
    exact hfirst
  have hlookup : w'.files.lookup (w'.files.here.join (w'.fileOf ⟨.relative, ["a"]⟩)).fold =
    .error .notFound := by
    rw [(outcome_of_remade hsane.registered ht hm).frame]
    exact lookup_expectant
  obtain ⟨w₁, hrun, hmoved, hkept⟩ := commit_of_missing host hmade rfl hlookup
  refine ⟨w, w', _, w₁, ht, hm, hc, ?_, hmoved, hkept⟩
  rw [plan_expectant]
  exact hrun

/-- Whoever carries the commit out, and whether it is refused. -/
theorem reconcile_expectant : ∃ w w' plan w₁, Tended (expectant []).polled w ∧
    Remade w ((expectant []).reloads (expectant []).plan ++ (expectant []).plan.toLoad)
      ((expectant []).plan.toUnload.map (·.1)) w' ∧
    reconcile host (expectant []) = (.ok plan, w₁) ∧ Reached .all ⟨expectant [], []⟩ [] w₁ ∧
    Unmoved w' w₁ ∧ Upheld w' w₁ := by
  have hnew : (told []).IsNew := ⟨rfl, rfl, rfl, rfl, rfl, rfl⟩
  obtain ⟨-, hsane, htame⟩ := (history_expectant []).linked hnew.isSane (isTame_told (by simp))
  have hstart : Reached .all ⟨expectant [], []⟩ [] (expectant []) := ⟨.refl, hsane, htame⟩
  obtain ⟨w, w', done, w₂, ht, hm, hc, hrun, hmoved, hkept⟩ := cycle_expectant host
  have hplanned := hstart.cycle_ok rfl hc
  have hnone : done.commit.toTerminate = [] := by
    obtain ⟨_, -, -, rfl⟩ := hstart.remade_of_cycle hc
    rw [plan_expectant]
    rfl
  obtain ⟨w₁, hr, hw₁⟩ :=
    Reached.reconcile_of_cycle (Reached.serves_hostAt depthLimit) hplanned rfl hc
  obtain ⟨w₃, h₃, hw₃⟩ := Reached.reconcile_cases
    (J := fun v => Unmoved w' v ∧ Upheld w' v) rfl hc hplanned.tame.refusal
    (by rw [hrun]; exact ends_ok ⟨hmoved, hkept⟩) ⟨⟨rfl, fun _ => Iff.rfl⟩, rfl, rfl, rfl, rfl, rfl⟩
    (fun entry => by rw [hnone]; exact ends_ok ⟨⟨rfl, fun _ => Iff.rfl⟩, rfl, rfl, rfl, rfl, rfl⟩)
    fun _ => ⟨⟨rfl, fun _ => Iff.rfl⟩, rfl, rfl, rfl, rfl, rfl⟩
  obtain rfl : w₁ = w₃ := congrArg Prod.snd (hr.symm.trans h₃)
  exact ⟨w, w', _, w₁, ht, hm, hr, hw₁, hw₃⟩

/-- What follows the commit finds an instance of a path without a file. -/
structure Misled (w : World) : Prop where
  opened : w.isClosed = false
  sound : IsSound w
  readable : IsReadable w
  reported : w.reported = []
  unmoved : Unmoved (expectant []) w
  unsettled : ¬IsSettled w

theorem misled_expectant {w₁ : World} (ht : Tended (expectant []).polled w)
    (hm : Remade w ((expectant []).reloads (expectant []).plan ++ (expectant []).plan.toLoad)
      ((expectant []).plan.toUnload.map (·.1)) w')
    (hmoved : Unmoved w' w₁) (hkept : Upheld w' w₁) : Misled w₁ := by
  have hnew : (told []).IsNew := ⟨rfl, rfl, rfl, rfl, rfl, rfl⟩
  obtain ⟨-, hsane, -⟩ := (history_expectant []).linked hnew.isSane (isTame_told (by simp))
  have hout := outcome_of_remade hsane.registered ht hm
  have hroot : w₁.root = (expectant []).root := by
    rw [hkept.root, hout.frame]
  have hbetween : Unmoved (expectant []) w₁ := hout.unmoved.trans hmoved
  refine ⟨?_, hkept.isSound hmoved.files (isSound_cycle ht hm (isSound_expectant [])),
    hbetween.isReadable hroot isReadable_expectant,
    (hkept.reported hmoved.files).trans (reported_cycle ht hm),
    hbetween, ?_⟩
  · rw [hkept.isClosed, hout.frame]
    rfl
  · -- the path got an instance because it was reported, and has no file
    rw [hmoved.isSettled_iff hkept.root hkept.registry, hout.isSettled_iff]
    exact not_faithful_expectant

end World

end HotReload
