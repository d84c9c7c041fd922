import HotReload.Host.Lifecycle
import HotReload.Proofs.Host.Claiming
import HotReload.Proofs.Host.Outcome
import Mathlib.Logic.Relation

/-!
# The host in small steps

A moment is a world with what is still to be done: commits that were not handed over or
are carried out, bodies that run, and terminations that go on. `Step` lists what can
happen next. What an operation does is a walk of such steps, so that what every step
preserves holds at every moment of every run.
-/
namespace HotReload

/-- Something that is still to be done. -/
inductive Duty where
  /-- What is left of a commit. -/
  | commit (c : Commit)
  /-- A body that runs. -/
  | body (n : Nat)
  /-- A termination, and whether it released the context. -/
  | ending (n : Nat) (released : Bool)
  deriving DecidableEq

/-- Whether something is done for an instance by itself. -/
def Duty.isOf (n : Nat) : Duty → Prop
  | .commit _ => False
  | .body m => m = n
  | .ending m _ => m = n

theorem Duty.isOf_body (n : Nat) : (Duty.body n).isOf n := rfl

theorem Duty.isOf_ending (n : Nat) (released : Bool) : (Duty.ending n released).isOf n := rfl

/-- The instances that something concerns. -/
def Duty.numbers : Duty → List Nat
  | .commit c => c.toRun ++ c.toTerminate
  | .body n => [n]
  | .ending n _ => [n]

structure Moment where
  world : World
  /-- What is to be done, the innermost first. -/
  duties : List Duty := []

/-- Whether a script can turn one tree into another. -/
def FileTree.Edited (t t' : FileTree FileContent) : Prop :=
  (∃ path content time, t.write path content time = .ok t') ∨ ∃ path, t.remove path = .ok t'

/-- What the runs that are looked at may contain. -/
structure Regime where
  /-- What scripts may ask of the host. -/
  asks : HostRequest → Prop
  /-- How claimed paths may be spelled. -/
  spells : Path → Prop
  /-- Which paths the operator may unwatch. -/
  unwatches : World → List Path → Prop
  /-- Whether the host may be shut down. -/
  closes : Prop
  /-- Whether instances may claim, release and end apart from the host. -/
  direct : Prop
  /-- Whether scripts may write and remove files. -/
  edits : Prop
  /-- Whether closers may raise what has no literal, so that a termination is given up. -/
  abandons : Prop
  /-- What is true of the files at every moment. -/
  tree : FileTree FileContent → Prop
  spells_of_asks : ∀ paths, asks (.watch paths) → ∀ p ∈ paths, spells (Path.parse p)
  unwatches_of_asks : ∀ w paths, asks (.unwatch paths) → unwatches w (paths.map Path.parse)
  closes_of_asks : asks .shutdown → closes
  tree_of_edits : edits → ∀ t t', tree t → t.Edited t' → tree t'

/-- Every run in which the host alone has to do with instances. -/
def Regime.all : Regime where
  asks _ := True
  spells _ := True
  unwatches _ _ := True
  closes := True
  direct := False
  edits := True
  abandons := True
  tree _ := True
  spells_of_asks _ _ _ _ := trivial
  unwatches_of_asks _ _ _ := trivial
  closes_of_asks _ := trivial
  tree_of_edits _ _ _ _ _ := trivial

/-- The same where every closer raises what has a literal, so that no termination is given up. -/
def Regime.thorough : Regime := { Regime.all with abandons := False }

/-- The runs of a regime in which scripts ask nothing of the host. -/
def Regime.silent (R : Regime) : Regime :=
  { R with
    asks := fun _ => False
    spells_of_asks := fun _ h => h.elim
    unwatches_of_asks := fun _ _ h => h.elim
    closes_of_asks := fun h => h.elim }

namespace World

/-- Whether nothing changed that instances, claims or commits are about. -/
structure Calm (w w' : World) : Prop where
  frame : w' = { w with
    files := w'.files, exports := w'.exports, watch := w'.watch, watchStarted := w'.watchStarted
    executor := w'.executor, isPolling := w'.isPolling, isStranded := w'.isStranded,
      thread := w'.thread
    now := w'.now, releaseFaults := w'.releaseFaults, met := w'.met, journal := w'.journal }
  lives : w'.journal.lives = w.journal.lives

theorem Framed.calm {w w' : World} (h : Framed w w') : Calm w w' := by
  refine ⟨?_, h.lives⟩
  rw [h.frame]

/-- A world in which an instance is about to be executed. -/
def launched (w : World) (n : Nat) : World :=
  { w with scripts := w.scripts.modify n ({ · with state := .running, hasContext := true }) }

/-- A world in which the body of an instance was started. -/
def started (w : World) (n : Nat) (s : Script) : World :=
  { w.launched n with
    journal := w.journal.record (.execute n s.path s.name (w.fileOf s.path).toText) }

/-- A world in which the context of an instance was released. -/
def released (w : World) (n : Nat) (s : Script) : World :=
  { w with
    engine := w.engine.release s.path n
    journal := w.journal.record (.release n s.path) }

/-- A world in which an instance is in another state. -/
def turned (w : World) (n : Nat) (state : ScriptState) : World :=
  { w with scripts := w.scripts.modify n ({ · with state }) }

/-- A world in which the host was closed, with nothing registered. -/
def closed (w : World) : World := { w with isClosed := true, registry := [] }

end World

open World

/-- What can happen next. -/
inductive Step (R : Regime) : Moment → Moment → Prop where
  | calm {w w' K} (h : Calm w w') (ht : R.tree w'.files) : Step R ⟨w, K⟩ ⟨w', K⟩
  /-- An instance gets a dependency, or what its body raised. -/
  | amend {w K n} (f : Script → Script)
      (h : ∀ s, f s = { s with
        error := (f s).error, dependencies := (f s).dependencies,
          lastChange := (f s).lastChange }) :
      Step R ⟨w, K⟩ ⟨{ w with scripts := w.scripts.modify n f }, K⟩
  /-- An instance allocates or closes resources. -/
  | allocate {w d K n} (resources : ResourceRegistry) (h : Duty.isOf n d) :
      Step R ⟨w, d :: K⟩ ⟨{ w with scripts := w.scripts.modify n ({ · with resources }) }, d :: K⟩
  | scriptWatch {w K n} (paths : List Path) (h : ∀ p ∈ paths, R.spells p) :
      Step R ⟨w, .body n :: K⟩ ⟨(scriptWatch n paths w).2, .body n :: K⟩
  | scriptUnwatch {w d K n} (paths : List Path) (h : Duty.isOf n d) :
      Step R ⟨w, d :: K⟩ ⟨(scriptUnwatch n paths w).2, d :: K⟩
  | watchPaths {w K} (paths : List Path) (h : ∀ p ∈ paths, R.spells p) :
      Step R ⟨w, K⟩ ⟨(watchPaths paths w).2, K⟩
  | unwatchPaths {w K} (paths : List Path) (h : R.unwatches w paths) :
      Step R ⟨w, K⟩ ⟨(unwatchPaths paths w).2, K⟩
  /-- A cycle is planned and applied; its commit is to be done. -/
  | plan {w w₁ w' K} (ho : w.isClosed = false) (ht : Tended w.polled w₁) (hf : Fits w w.plan)
      (hm : Remade w₁ (w.reloads w.plan ++ w.plan.toLoad) (w.plan.toUnload.map (·.1)) w') :
      Step R ⟨w, K⟩ ⟨w', .commit (w.commitOf w.plan) :: K⟩
  /-- The executor takes a commit for later. -/
  | enqueue {w c K} : Step R ⟨w, .commit c :: K⟩ ⟨{ w with tasks := w.tasks ++ [c] }, K⟩
  | dequeue {w c K} (i : Nat) (h : w.tasks[i]? = some c) :
      Step R ⟨w, K⟩ ⟨{ w with tasks := w.tasks.eraseIdx i }, .commit c :: K⟩
  /-- The executor cannot take a commit: nothing of it is run. -/
  | refuse {w c K} : Step R ⟨w, .commit c :: K⟩ ⟨w, .commit ⟨[], c.toTerminate⟩ :: K⟩
  | start {w n s toRun toTerminate K} (hs : w.script? n = some s) (hc : s.state = .created) :
      Step R ⟨w, .commit ⟨n :: toRun, toTerminate⟩ :: K⟩
        ⟨w.started n s, .body n :: .commit ⟨toRun, toTerminate⟩ :: K⟩
  /-- An instance that was run or is over is not run. -/
  | skip {w n s toRun toTerminate K} (hs : w.script? n = some s) (hc : s.state ≠ .created) :
      Step R ⟨w, .commit ⟨n :: toRun, toTerminate⟩ :: K⟩ ⟨w, .commit ⟨toRun, toTerminate⟩ :: K⟩
  /-- A body comes to its end, and its variables are kept. -/
  | complete {w n s K} (ns : Namespace) (hs : w.script? n = some s) :
      Step R ⟨w, .body n :: K⟩ ⟨{ w with engine := w.engine.keep s.path n ns }, K⟩
  /-- A body ends with a failure. -/
  | fail {w n K} : Step R ⟨w, .body n :: K⟩ ⟨w, K⟩
  | begin {w n s toTerminate K} (hs : w.script? n = some s) (ho : s.isOver = false) :
      Step R ⟨w, .commit ⟨[], n :: toTerminate⟩ :: K⟩
        ⟨w.turned n .terminating, .ending n false :: .commit ⟨[], toTerminate⟩ :: K⟩
  /-- An instance that is over is not terminated again. -/
  | pass {w n s toTerminate K} (hs : w.script? n = some s) (ho : s.isOver = true) :
      Step R ⟨w, .commit ⟨[], n :: toTerminate⟩ :: K⟩ ⟨w, .commit ⟨[], toTerminate⟩ :: K⟩
  | release {w n s K} (hs : w.script? n = some s) (hc : s.hasContext = true) :
      Step R ⟨w, .ending n false :: K⟩ ⟨w.released n s, .ending n true :: K⟩
  | finish {w n s released K} (hs : w.script? n = some s)
    (hc : s.hasContext = true → released = true) :
      Step R ⟨w, .ending n released :: K⟩ ⟨w.turned n .terminated, K⟩
  /-- A termination is given up before it releases the context. -/
  | abandon {w n K} (h : R.abandons) : Step R ⟨w, .ending n false :: K⟩ ⟨w, K⟩
  | done {w K} : Step R ⟨w, .commit ⟨[], []⟩ :: K⟩ ⟨w, K⟩
  /-- The host shuts down: whatever is registered is to be terminated. -/
  | close {w K} (hc : R.closes) (ho : w.isClosed = false) :
      Step R ⟨w, K⟩ ⟨w.closed, .commit ⟨[], w.registry.map (·.2)⟩ :: K⟩
  | clear {w K} (hc : R.closes) (ho : w.isClosed = true) :
    Step R ⟨w, K⟩ ⟨{ w with claims := [] }, K⟩

/-- Whether steps lead from one moment to another. -/
abbrev Walk (R : Regime) : Moment → Moment → Prop := Relation.ReflTransGen (Step R)

/-! Many steps leave alone what instances are registered, run, terminated and queued. -/

namespace World

/-- Whether nothing changed that the lives of instances are about. -/
structure Still (w w' : World) : Prop where
  root : w'.root = w.root
  registry : w'.registry = w.registry
  tasks : w'.tasks = w.tasks
  isClosed : w'.isClosed = w.isClosed
  lives : w'.journal.lives = w.journal.lives
  length : w'.scripts.length = w.scripts.length
  script : ∀ n s, w.script? n = some s →
    ∃ s', w'.script? n = some s' ∧ s'.path = s.path ∧ s'.state = s.state ∧
      s'.hasContext = s.hasContext

variable {w w' : World} {n : Nat}

theorem Calm.still (h : Calm w w') : Still w w' := by
  have hl := h.lives
  rw [h.frame] at hl ⊢
  exact ⟨rfl, rfl, rfl, rfl, hl, rfl, fun n s hs => ⟨s, hs, rfl, rfl, rfl⟩⟩

theorem script?_modify (w : World) (n : Nat) (f : Script → Script) (k : Nat) :
    ({ w with scripts := w.scripts.modify n f } : World).script? k =
      if n = k then (w.script? k).map f else w.script? k := by
  show (w.scripts.modify n f)[k]? = _
  rw [List.getElem?_modify]
  split <;> simp [script?]

/-- What is true of every instance stays true if it is of the one that changes. -/
theorem forall_modify {w : World} {n : Nat} {f : Script → Script} {P : Script → Prop}
    (h : ∀ s ∈ w.scripts, P s) (hf : ∀ s, w.script? n = some s → P s → P (f s)) :
    ∀ s ∈ w.scripts.modify n f, P s := by
  intro t ht
  obtain ⟨k, hk⟩ := List.mem_iff_getElem?.mp ht
  have hm := script?_modify w n f k
  rw [script?, hk] at hm
  split at hm
  · rename_i hn
    obtain ⟨s, hs, rfl⟩ := Option.map_eq_some_iff.mp hm.symm
    exact hf s (hn ▸ hs) (h s (List.mem_of_getElem? hs))
  · exact h t (List.mem_of_getElem? hm.symm)

/-- Changing an instance apart from its path and its life leaves the lives alone. -/
theorem still_modify (f : Script → Script)
    (hf : ∀ s, (f s).path = s.path ∧ (f s).state = s.state ∧ (f s).hasContext = s.hasContext)
    (n : Nat) :
    Still w { w with scripts := w.scripts.modify n f } := by
  refine ⟨rfl, rfl, rfl, rfl, rfl, List.length_modify .., fun k s hs => ?_⟩
  rw [script?_modify, hs]
  split
  · exact ⟨f s, rfl, hf s⟩
  · exact ⟨s, rfl, rfl, rfl, rfl⟩

theorem Reclaimed.still (h : Reclaimed n w w') : Still w w' := by
  have hl := h.lives
  rcases h.scripts with hs | ⟨claims, hs⟩ <;> rw [h.frame, hs] at hl ⊢
  · exact ⟨rfl, rfl, rfl, rfl, hl, rfl, fun n s hs => ⟨s, hs, rfl, rfl, rfl⟩⟩
  · have hm : Still w { w with scripts := w.scripts.modify n ({ · with claims }) } :=
      still_modify ({ · with claims }) (fun _ => ⟨rfl, rfl, rfl⟩) n
    exact ⟨rfl, rfl, rfl, rfl, hl, hm.length, hm.script⟩

theorem Operated.still (h : Operated w w') : Still w w' := by
  rw [h]
  exact ⟨rfl, rfl, rfl, rfl, rfl, rfl, fun _ s hs => ⟨s, hs, rfl, rfl, rfl⟩⟩

theorem still_watchPaths (paths : List Path) : Still w (watchPaths paths w).2 :=
  (operated_watchPaths paths w).still

theorem still_unwatchPaths (paths : List Path) : Still w (unwatchPaths paths w).2 :=
  (operated_unwatchPaths paths w).still

theorem script?_still (h : Still w w') {s : Script} (hs : w.script? n = some s) :
    ∃ s', w'.script? n = some s' ∧ s'.path = s.path := by
  obtain ⟨s', hs', hp, -⟩ := h.script n s hs
  exact ⟨s', hs', hp⟩

theorem script?_path {s : Script} (f : Script → Script) (hf : ∀ s, (f s).path = s.path) (k : Nat)
    (hs : w.script? n = some s) :
    ∃ s', ({ w with scripts := w.scripts.modify k f } : World).script? n = some s' ∧
      s'.path = s.path := by
  rw [script?_modify, hs]
  split
  · exact ⟨f s, rfl, hf s⟩
  · exact ⟨s, rfl, rfl⟩

theorem lt_of_script? {s : Script} (h : w.script? n = some s) : n < w.scripts.length :=
  (List.getElem?_eq_some_iff.mp h).1

/-- What is registered stays so if the instances keep their paths. -/
theorem IsRegistered.of_scripts (h : IsRegistered w) (hr : w'.registry = w.registry)
    (hs : ∀ n s, w.script? n = some s → ∃ s', w'.script? n = some s' ∧ s'.path = s.path) :
    IsRegistered w' := by
  refine ⟨hr ▸ h.nodup, fun p n hn => ?_⟩
  rw [hr] at hn
  obtain ⟨s, h₁, rfl⟩ := h.script p n hn
  exact hs n s h₁

theorem IsRegistered.lt_length (h : IsRegistered w) {e : Path × Nat} (he : e ∈ w.registry) :
    e.2 < w.scripts.length := by
  obtain ⟨s, hs, -⟩ := h.script e.1 e.2 (Registry.get?_of_mem h.nodup he)
  exact lt_of_script? hs

/-- What a cycle has led to, as against the world in which it was planned. -/
structure Grown (w : World) (fresh gone : List Path) (w' : World) : Prop where
  root : w'.root = w.root
  tasks : w'.tasks = w.tasks
  isClosed : w'.isClosed = w.isClosed
  lives : w'.journal.lives = w.journal.lives
  scripts : ∃ w₁ : World, w'.scripts = w.scripts ++ fresh.map w₁.made
  registry : ∀ p, w'.registry.get? p =
    if p ∈ fresh then some (w.scripts.length + fresh.idxOf p)
    else if p ∈ gone then none
    else w.registry.get? p

theorem Remade.grown {w₁ : World} {fresh gone : List Path} (hm : Remade w₁ fresh gone w')
    (ht : Tended w.polled w₁) : Grown w fresh gone w' := by
  have hscripts : w₁.scripts = w.scripts := by rw [ht.frame]; rfl
  have hregistry : w₁.registry = w.registry := by rw [ht.frame]; rfl
  refine ⟨?_, ?_, ?_, hm.lives.trans ht.lives, ⟨w₁, hscripts ▸ hm.scripts⟩, fun p => ?_⟩
  · rw [hm.frame, ht.frame]
    rfl
  · rw [hm.frame, ht.frame]
    rfl
  · rw [hm.frame, ht.frame]
    rfl
  · rw [hm.registry, hscripts, hregistry]

theorem Grown.length {fresh gone : List Path} (h : Grown w fresh gone w') :
    w'.scripts.length = w.scripts.length + fresh.length := by
  obtain ⟨w₁, hs⟩ := h.scripts
  rw [hs, List.length_append, List.length_map]

/-- The instances that there were stay as they are. -/
theorem Grown.script? {fresh gone : List Path} (h : Grown w fresh gone w') {s : Script}
    (hs : w.script? n = some s) : w'.script? n = some s := by
  obtain ⟨w₁, hscripts⟩ := h.scripts
  rw [World.script?, hscripts, List.getElem?_append_left (lt_of_script? hs)]
  exact hs

/-- An instance was there before, or it was made for its path and registered. -/
theorem Grown.script?_cases {fresh gone : List Path} (h : Grown w fresh gone w')
    (hf : fresh.Nodup) {s : Script} (hs : w'.script? n = some s) : w.script? n = some s ∨
      w.scripts.length ≤ n ∧ w'.registry.get? s.path = some n ∧ s.path ∈ fresh ∧ ∃ w₁ : World,
        s = w₁.made s.path := by
  obtain ⟨w₁, hscripts⟩ := h.scripts
  rw [World.script?, hscripts] at hs
  by_cases hn : n < w.scripts.length
  · rw [List.getElem?_append_left hn] at hs
    exact Or.inl hs
  · rw [List.getElem?_append_right (Nat.not_lt.mp hn), List.getElem?_map] at hs
    obtain ⟨p, hp, rfl⟩ := Option.map_eq_some_iff.mp hs
    obtain ⟨hi, rfl⟩ := List.getElem?_eq_some_iff.mp hp
    refine Or.inr ⟨Nat.not_lt.mp hn, ?_, List.getElem_mem _, w₁, rfl⟩
    rw [show (w₁.made fresh[n - w.scripts.length]).path = fresh[n - w.scripts.length] from rfl,
      h.registry, if_pos (List.getElem_mem _), hf.idxOf_getElem]
    congr 1
    omega

end World

namespace Moment

/-- What is to be done, also what is queued. -/
def pending (m : Moment) : List Duty := m.duties ++ m.world.tasks.map .commit

/-- The instances that it concerns. -/
def numbers (m : Moment) : List Nat := m.pending.flatMap Duty.numbers

variable {w w' : World} {K K' : List Duty}

theorem mem_numbers {n : Nat} : n ∈ numbers ⟨w, K⟩ ↔
    (∃ d ∈ K, n ∈ d.numbers) ∨ ∃ c ∈ w.tasks, n ∈ c.toRun ∨ n ∈ c.toTerminate := by
  simp [numbers, pending, Duty.numbers]

theorem mem_numbers_cons {d : Duty} {n : Nat} :
    n ∈ numbers ⟨w, d :: K⟩ ↔ n ∈ d.numbers ∨ n ∈ numbers ⟨w, K⟩ := by
  simp [numbers, pending]

/-- Whether every number that is used is that of an instance, and what is registered has files
that can be asked for. -/
structure IsSane (m : Moment) : Prop where
  registered : IsRegistered m.world
  named : ∀ p n, m.world.registry.get? p = some n → IsNamed m.world p
  known : ∀ n ∈ m.numbers, n < m.world.scripts.length

theorem IsSane.transfer (h : IsSane ⟨w, K⟩) (hroot : w'.root = w.root)
    (hr : w'.registry = w.registry) (hl : w'.scripts.length = w.scripts.length)
    (hs : ∀ n s, w.script? n = some s → ∃ s', w'.script? n = some s' ∧ s'.path = s.path)
    (hn : ∀ n ∈ numbers ⟨w', K'⟩, n ∈ numbers ⟨w, K⟩) : IsSane ⟨w', K'⟩ where
  registered := h.registered.of_scripts hr hs
  named p n hp := by
    show (w'.root.join p).hasNull = false
    rw [hroot]
    exact h.named p n (hr ▸ hp)
  known n hm := by
    show n < w'.scripts.length
    rw [hl]
    exact h.known n (hn n hm)

theorem IsSane.of_still (h : IsSane ⟨w, K⟩) (hw : Still w w') : IsSane ⟨w', K⟩ := by
  refine h.transfer hw.root hw.registry hw.length (fun n s hs => script?_still hw hs) fun n hn => ?_
  rwa [mem_numbers, hw.tasks, ← mem_numbers] at hn

/-- Only what is to be done changes. -/
theorem IsSane.of_numbers (h : IsSane ⟨w, K⟩) (hn : ∀ n ∈ numbers ⟨w, K'⟩, n ∈ numbers ⟨w, K⟩) :
    IsSane ⟨w, K'⟩ :=
  h.transfer rfl rfl rfl (fun _ s hs => ⟨s, hs, rfl⟩) hn

/-- An instance is turned to another state. -/
theorem IsSane.of_modify (f : Script → Script) (n : Nat) (hf : ∀ s, (f s).path = s.path)
    (h : IsSane ⟨w, K⟩) : IsSane ⟨{ w with scripts := w.scripts.modify n f }, K⟩ := by
  exact h.transfer rfl rfl (List.length_modify ..)
    (fun _ _ hs => script?_path f hf n hs) fun n hn => hn

/-- What carrying out a plan makes and removes is known. -/
theorem IsSane.planned (h : IsSane ⟨w, K⟩) (hr : IsRegistered w') (hf : Fits w w.plan)
    (hg : Grown w (w.reloads w.plan ++ w.plan.toLoad) (w.plan.toUnload.map (·.1)) w') :
    IsSane ⟨w', .commit (w.commitOf w.plan) :: K⟩ := by
  refine ⟨hr, fun p n hn => ?_, fun n hn => ?_⟩
  · show (w'.root.join p).hasNull = false
    rw [hg.root]
    rw [hg.registry] at hn
    split at hn
    · rename_i hp
      rcases List.mem_append.mp hp with hp | hp
      · obtain ⟨hq, hc⟩ := mem_reloads.mp hp
        exact hf.named p (Or.inr ⟨hq, Registry.contains_iff.mpr hc⟩)
      · exact hf.named p (Or.inl hp)
    · split at hn
      · cases hn
      · exact h.named p n hn
  · show n < w'.scripts.length
    rw [hg.length]
    rw [mem_numbers_cons, mem_numbers, hg.tasks, ← mem_numbers] at hn
    rcases hn with hn | hn
    · rw [Duty.numbers, commitOf, List.mem_append, List.mem_append] at hn
      rcases hn with hn | hn | hn
      · have hn := (List.mem_range'_1.mp hn).2
        omega
      · obtain ⟨p, -, hp⟩ := List.mem_filterMap.mp hn
        obtain ⟨s, hs, -⟩ := h.registered.script p n hp
        exact Nat.lt_add_right _ (lt_of_script? hs)
      · obtain ⟨e, he, rfl⟩ := List.mem_map.mp hn
        obtain ⟨s, hs, -⟩ := h.registered.script e.1 e.2 (hf.unload e he)
        exact Nat.lt_add_right _ (lt_of_script? hs)
    · exact Nat.lt_add_right _ (h.known n hn)

/-- What a host that shuts down terminates is known. -/
theorem IsSane.closed (h : IsSane ⟨w, K⟩) :
    IsSane ⟨w.closed, .commit ⟨[], w.registry.map (·.2)⟩ :: K⟩ := by
  refine ⟨⟨List.nodup_nil, fun p n hn => ?_⟩, fun p n hn => ?_, fun n hn => ?_⟩
  · cases hn
  · cases hn
  · rcases mem_numbers_cons.mp hn with hn | hn
    · obtain ⟨e, he, rfl⟩ := List.mem_map.mp hn
      exact h.registered.lt_length he
    · exact h.known n hn

end Moment

/-- Every step keeps a moment sane. -/
theorem Step.isSane {R : Regime} {m m' : Moment} (h : Step R m m') (hs : m.IsSane) : m'.IsSane := by
  cases h with
  | calm h ht => exact hs.of_still h.still
  | amend f h =>
    refine hs.of_still (still_modify f (fun s => ?_) _)
    rw [h s]
    exact ⟨rfl, rfl, rfl⟩
  | allocate resources h =>
    exact hs.of_still (still_modify ({ · with resources }) (fun _ => ⟨rfl, rfl, rfl⟩) _)
  | scriptWatch paths h => exact hs.of_still (ends_scriptWatch ..).1.still
  | scriptUnwatch paths h => exact hs.of_still (ends_scriptUnwatch ..).1.still
  | watchPaths paths h => exact hs.of_still (still_watchPaths paths)
  | unwatchPaths paths h => exact hs.of_still (still_unwatchPaths paths)
  | plan ho ht hf hm =>
    have hr := hm.isRegistered (isRegistered_tended hs.registered ht)
    exact hs.planned hr hf (hm.grown ht)
  | enqueue =>
    refine hs.transfer rfl rfl rfl (fun _ s h => ⟨s, h, rfl⟩) fun n hn => ?_
    simp only [Moment.mem_numbers, Duty.numbers, List.mem_append, List.mem_cons] at hn ⊢
    grind
  | @dequeue w c K i h =>
    refine hs.transfer rfl rfl rfl (fun _ s h => ⟨s, h, rfl⟩) fun n hn => ?_
    have hc := List.mem_of_getElem? h
    have he : ∀ c ∈ w.tasks.eraseIdx i, c ∈ w.tasks := fun _ hm => List.eraseIdx_subset hm
    simp only [Moment.mem_numbers, Duty.numbers, List.mem_cons] at hn ⊢
    grind
  | refuse =>
    refine hs.of_numbers fun n hn => ?_
    simp only [Moment.mem_numbers_cons, Duty.numbers, List.nil_append, List.mem_append] at hn ⊢
    tauto
  | start hn hc =>
    refine (hs.of_modify ({ · with state := .running, hasContext := true }) _ fun _ => rfl).transfer
      rfl rfl
      rfl (fun _ s h => ⟨s, h, rfl⟩) fun n hm => ?_
    simp only [Moment.mem_numbers, Duty.numbers, List.mem_cons] at hm ⊢
    grind [World.started, World.launched]
  | skip hn hc =>
    refine hs.of_numbers fun n hn => ?_
    simp only [Moment.mem_numbers_cons, Duty.numbers, List.cons_append, List.mem_cons] at hn ⊢
    tauto
  | complete ns hn =>
    refine hs.transfer rfl rfl rfl (fun _ s h => ⟨s, h, rfl⟩) fun n hm => ?_
    exact Moment.mem_numbers_cons.mpr (Or.inr hm)
  | fail => exact hs.of_numbers fun n hn => Moment.mem_numbers_cons.mpr (Or.inr hn)
  | begin hn ho =>
    refine (hs.of_numbers fun n hm => ?_).of_modify ({ · with state := .terminating })
      _ fun _ => rfl
    simp only [Moment.mem_numbers_cons, Duty.numbers, List.nil_append, List.mem_cons] at hm ⊢
    grind
  | pass hn ho =>
    refine hs.of_numbers fun n hm => ?_
    simp only [Moment.mem_numbers_cons, Duty.numbers, List.nil_append, List.mem_cons] at hm ⊢
    tauto
  | release hn hc => exact hs.transfer rfl rfl rfl (fun _ s h => ⟨s, h, rfl⟩) fun n hm => hm
  | finish hn hc =>
    refine (hs.of_numbers fun n hm => ?_).of_modify ({ · with state := .terminated }) _ fun _ => rfl
    exact Moment.mem_numbers_cons.mpr (Or.inr hm)
  | abandon => exact hs.of_numbers fun n hn => Moment.mem_numbers_cons.mpr (Or.inr hn)
  | done => exact hs.of_numbers fun n hn => Moment.mem_numbers_cons.mpr (Or.inr hn)
  | close hc ho => exact hs.closed
  | clear hc ho => exact hs.transfer rfl rfl rfl (fun _ s h => ⟨s, h, rfl⟩) fun n hm => hm

/-- Every step keeps the instances and their paths. -/
theorem Step.script? {R : Regime} {m m' : Moment} (h : Step R m m') {n : Nat} {s : Script}
    (hs : m.world.script? n = some s) : ∃ s', m'.world.script? n = some s' ∧ s'.path = s.path := by
  cases h with
  | calm h ht => exact script?_still h.still hs
  | amend f h => exact script?_path f (fun s => by rw [h s]) _ hs
  | allocate resources h => exact script?_path ({ · with resources }) (fun _ => rfl) _ hs
  | scriptWatch paths h => exact script?_still (ends_scriptWatch ..).1.still hs
  | scriptUnwatch paths h => exact script?_still (ends_scriptUnwatch ..).1.still hs
  | watchPaths paths h => exact script?_still (still_watchPaths paths) hs
  | unwatchPaths paths h => exact script?_still (still_unwatchPaths paths) hs
  | plan ho ht hf hm => exact ⟨s, (hm.grown ht).script? hs, rfl⟩
  | start hn hc =>
    exact script?_path ({ · with state := .running, hasContext := true }) (fun _ => rfl) _ hs
  | begin hn ho => exact script?_path ({ · with state := .terminating }) (fun _ => rfl) _ hs
  | finish hn hc => exact script?_path ({ · with state := .terminated }) (fun _ => rfl) _ hs
  | _ => exact ⟨s, hs, rfl⟩

theorem Walk.script? {R : Regime} {m m' : Moment} (h : Walk R m m') {n : Nat} {s : Script}
    (hs : m.world.script? n = some s) : ∃ s', m'.world.script? n = some s' ∧ s'.path = s.path := by
  induction h with
  | refl => exact ⟨s, hs, rfl⟩
  | tail _ h ih =>
    obtain ⟨s₁, hs₁, hp₁⟩ := ih
    obtain ⟨s₂, hs₂, hp₂⟩ := h.script? hs₁
    exact ⟨s₂, hs₂, hp₂.trans hp₁⟩

/-- A host that was shut down stays so. -/
theorem Step.isClosed {R : Regime} {m m' : Moment} (h : Step R m m')
    (hc : m.world.isClosed = true) :
    m'.world.isClosed = true := by
  cases h with
  | calm h ht => exact h.still.isClosed.trans hc
  | scriptWatch paths h => exact (ends_scriptWatch ..).1.still.isClosed.trans hc
  | scriptUnwatch paths h => exact (ends_scriptUnwatch ..).1.still.isClosed.trans hc
  | watchPaths paths h => exact (still_watchPaths paths).isClosed.trans hc
  | unwatchPaths paths h => exact (still_unwatchPaths paths).isClosed.trans hc
  | plan ho ht hf hm => exact (hm.grown ht).isClosed.trans hc
  | close => rfl
  | _ => exact hc

theorem Walk.isClosed {R : Regime} {m m' : Moment} (h : Walk R m m')
    (hc : m.world.isClosed = true) :
    m'.world.isClosed = true := by
  induction h with
  | refl => exact hc
  | tail _ h ih => exact h.isClosed ih

/-- Whether an instance has left its first state. -/
def World.IsPast (n : Nat) (w : World) : Prop := ∃ s, w.script? n = some s ∧ s.state ≠ .created

theorem World.Still.isPast {w w' : World} {n : Nat} (h : Still w w') (hp : w.IsPast n) :
    w'.IsPast n := by
  obtain ⟨s, hs, hne⟩ := hp
  obtain ⟨s', hs', -, hstate, -⟩ := h.script n s hs
  exact ⟨s', hs', hstate ▸ hne⟩

theorem World.isPast_modify {w : World} {n : Nat} (f : Script → Script) (k : Nat)
    (hf : ∀ s, s.state ≠ .created → (f s).state ≠ .created) (hp : w.IsPast n) :
    ({ w with scripts := w.scripts.modify k f } : World).IsPast n := by
  obtain ⟨s, hs, hne⟩ := hp
  rw [IsPast, script?_modify, hs]
  split
  · exact ⟨f s, rfl, hf s hne⟩
  · exact ⟨s, rfl, hne⟩

/-- No step leads back to the first state of an instance. -/
theorem Step.isPast {R : Regime} {m m' : Moment} (h : Step R m m') {n : Nat}
    (hp : m.world.IsPast n) :
    m'.world.IsPast n := by
  cases h with
  | calm h ht => exact h.still.isPast hp
  | amend f h =>
    refine isPast_modify f _ (fun s hs => ?_) hp
    rw [h s]
    exact hs
  | allocate resources h => exact isPast_modify ({ · with resources }) _ (fun _ hs => hs) hp
  | scriptWatch paths h => exact (ends_scriptWatch ..).1.still.isPast hp
  | scriptUnwatch paths h => exact (ends_scriptUnwatch ..).1.still.isPast hp
  | watchPaths paths h => exact (still_watchPaths paths).isPast hp
  | unwatchPaths paths h => exact (still_unwatchPaths paths).isPast hp
  | plan ho ht hf hm =>
    obtain ⟨s, hs, hne⟩ := hp
    exact ⟨s, (hm.grown ht).script? hs, hne⟩
  | start hn hc =>
    exact isPast_modify ({ · with state := .running, hasContext := true }) _
      (fun _ _ => ScriptState.noConfusion) hp
  | begin hn ho =>
    exact isPast_modify ({ · with state := .terminating }) _ (fun _ _ => ScriptState.noConfusion) hp
  | finish hn hc =>
    exact isPast_modify ({ · with state := .terminated }) _ (fun _ _ => ScriptState.noConfusion) hp
  | _ => exact hp

theorem Walk.isPast {R : Regime} {m m' : Moment} (h : Walk R m m') {n : Nat}
    (hp : m.world.IsPast n) :
    m'.world.IsPast n := by
  induction h with
  | refl => exact hp
  | tail _ h ih => exact h.isPast ih

/-- Where the root is never changes. -/
theorem Step.root {R : Regime} {m m' : Moment} (h : Step R m m') :
    m'.world.root = m.world.root := by
  cases h with
  | calm h ht => exact h.still.root
  | scriptWatch paths h => exact (ends_scriptWatch ..).1.still.root
  | scriptUnwatch paths h => exact (ends_scriptUnwatch ..).1.still.root
  | watchPaths paths h => exact (still_watchPaths paths).root
  | unwatchPaths paths h => exact (still_unwatchPaths paths).root
  | plan ho ht hf hm => exact (hm.grown ht).root
  | _ => rfl

theorem Walk.root {R : Regime} {m m' : Moment} (h : Walk R m m') :
    m'.world.root = m.world.root := by
  induction h with
  | refl => rfl
  | tail _ h ih => exact h.root.trans ih

/-- Only a cycle and the closing of the host change what is registered. -/
theorem Step.registry {R : Regime} {m m' : Moment} (h : Step R m m') :
    m'.world.registry = m.world.registry ∨ m'.world.isClosed = true ∧ m'.world.registry = [] ∨
      ∃ w₁, Tended m.world.polled w₁ ∧ Fits m.world m.world.plan ∧
        Remade w₁ (m.world.reloads m.world.plan ++ m.world.plan.toLoad)
          (m.world.plan.toUnload.map (·.1)) m'.world ∧
        m'.duties = .commit (m.world.commitOf m.world.plan) :: m.duties := by
  cases h with
  | calm h ht => exact Or.inl h.still.registry
  | scriptWatch paths h => exact Or.inl (ends_scriptWatch ..).1.still.registry
  | scriptUnwatch paths h => exact Or.inl (ends_scriptUnwatch ..).1.still.registry
  | watchPaths paths h => exact Or.inl (still_watchPaths paths).registry
  | unwatchPaths paths h => exact Or.inl (still_unwatchPaths paths).registry
  | @plan w w₁ w' K ho ht hf hm => exact Or.inr (Or.inr ⟨w₁, ht, hf, hm, rfl⟩)
  | close hc ho => exact Or.inr (Or.inl ⟨rfl, rfl⟩)
  | _ => exact Or.inl rfl

theorem Walk.isSane {R : Regime} {m m' : Moment} (h : Walk R m m') (hs : m.IsSane) : m'.IsSane := by
  induction h with
  | refl => exact hs
  | tail _ h ih => exact h.isSane ih

end HotReload
