import HotReload.Proofs.Host.History
import HotReload.Proofs.Host.Running
import HotReload.Proofs.Host.Termination

/-!
# Executions

While scripts ask nothing of the host, no body runs inside another, and their executions come one
after the other, whatever the host is asked and whoever carries out its commits. The engine keeps
the variables of every body that came to its end until its instance is terminated, and knows of each
path which execution was the last to come to its end. A chronicle follows a history and runs every
body in the world that it was run in: while the host does one thing, nothing that bodies can see
changes between them.
-/
namespace HotReload

open World Moment Operation

/-! Histories in which scripts ask nothing. -/

/-- How a host has come from one world to another while its scripts asked nothing of it. -/
inductive QuietHistory (R : Regime) (w₀ : World) : World → Prop where
  | refl : QuietHistory R w₀ w₀
  | request {w} (depth : Nat) (request : HostRequest) (h : QuietHistory R w₀ w)
    (hp : R.Permits request) (hn : request.IsNamed) :
      QuietHistory R w₀ (hostAt depth request w).2
  | poll {w} (depth : Nat) (h : QuietHistory R w₀ w) :
    QuietHistory R w₀ (pollRound (hostAt depth) w).2
  | carry {w c} (runner : Runner) (depth i : Nat) (h : QuietHistory R w₀ w)
    (hc : w.tasks[i]? = some c) :
      QuietHistory R w₀ (runner.carry (hostAt depth) c { w with tasks := w.tasks.eraseIdx i }).2
  /-- Files, clocks and threads change, and the watch learns of it. -/
  | outside {w w'} (h : QuietHistory R w₀ w) (hc : Calm w w') (ht : IsTame R.silent w') :
    QuietHistory R w₀ w'

variable {R : Regime} {w₀ w w' w₁ : World} {n : Nat} {s : Script}

/-- What a host does at one time: it answers a request, makes a round of the poll loop, or carries
out a commit that waits. -/
inductive Deed (R : Regime) (w : World) : World → Prop where
  | request (depth : Nat) (request : HostRequest) (hp : R.Permits request) (hn : request.IsNamed) :
      Deed R w (hostAt depth request w).2
  | poll (depth : Nat) : Deed R w (pollRound (hostAt depth) w).2
  | carry {c} (runner : Runner) (depth i : Nat) (hc : w.tasks[i]? = some c) :
      Deed R w (runner.carry (hostAt depth) c { w with tasks := w.tasks.eraseIdx i }).2

theorem Deed.quietHistory (h : QuietHistory R w₀ w) (hd : Deed R w w') : QuietHistory R w₀ w' := by
  cases hd with
  | request depth request hp hn => exact h.request depth request hp hn
  | poll depth => exact h.poll depth
  | carry runner depth i hc => exact h.carry runner depth i hc

/-- What is kept by the changes that the host makes, and when instances are run, is kept by whatever
it does while scripts ask nothing. -/
theorem World.Sustains.of_deed {J : List Duty → World → Prop} (hJ : Sustains R.silent J)
    (hr : ∀ depth, Runs J (hostAt depth)) (h : Deed R w w') (hw : J [] w) : J [] w' := by
  cases h with
  | request depth request hp hn =>
    cases depth with
    | zero => exact hw
    | succ depth =>
      exact (hJ.keeps_permitted (hr depth) ⟨hp.watch, hp.unwatch, hp.shutdown⟩ hn _ hw).1
  | poll depth => exact (hJ.keeps_pollRound (E := fun _ => False) (hr depth) _ hw).1
  | carry runner depth i hc => exact (hJ.ends_carry (hr depth) runner (hJ.dequeue i hw hc)).1

/-! What was executed. -/

/-- An execution: whose body it was, at which path, and the variables if it came to its end. -/
structure Execution where
  script : Nat
  path : Path
  result : Option Namespace

namespace World

/-- Whether nothing was executed or terminated from one world to another, nothing changed that a
body can see, and other instances are new. -/
structure Pause (w w' : World) : Prop where
  frame : w' = { w with
    scripts := w'.scripts, registry := w'.registry, claims := w'.claims, operator := w'.operator
    watch := w'.watch, watchStarted := w'.watchStarted, executor := w'.executor, tasks := w'.tasks
    isClosed := w'.isClosed, isPolling := w'.isPolling, isStranded := w'.isStranded,
      thread := w'.thread
    journal := w'.journal }
  executed : w'.journal.executed = w.journal.executed
  scripts : ∃ fresh : List Script, w'.scripts = w.scripts ++ fresh ∧
    ∀ s ∈ fresh, s.state = .created ∧ s.hasContext = false ∧ s.error = none

/-- What a host executed while it did one thing, the last execution first. -/
inductive Executes (R : Regime) (w₀ : World) : List Execution → World → Prop where
  | refl : Executes R w₀ [] w₀
  | pause {told w w'} (h : Executes R w₀ told w) (hp : Pause w w') (ht : IsTame R.silent w') :
    Executes R w₀ told w'
  | run {told w n s} (depth : Nat) (h : Executes R w₀ told w) (hs : w.script? n = some s)
    (hc : s.state = .created) :
      Executes R w₀ (⟨n, s.path, (runBody (hostAt depth) n s w).1.toOption⟩ :: told)
        (run (hostAt depth) n w).2
  | terminate {told w n s} (h : Executes R w₀ told w) (hs : w.script? n = some s)
    (ho : s.isOver = false) :
      Executes R w₀ told (terminate n w).2

/-- What was executed in a history, the last execution first. -/
inductive Chronicle (R : Regime) (w₀ : World) : List Execution → World → Prop where
  | new : Chronicle R w₀ [] w₀
  | deed {told later w w'} (h : Chronicle R w₀ told w) (hd : Deed R w w')
    (he : Executes R w later w') :
      Chronicle R w₀ (later ++ told) w'
  | outside {told w w'} (h : Chronicle R w₀ told w) (hc : Calm w w') (ht : IsTame R.silent w') :
      Chronicle R w₀ told w'

theorem Chronicle.quietHistory {told : List Execution} (h : Chronicle R w₀ told w) :
    QuietHistory R w₀ w := by
  induction h with
  | new => exact .refl
  | deed _ hd _ ih => exact hd.quietHistory ih
  | outside _ hc ht ih => exact ih.outside hc ht

/-- Whether nothing was executed or terminated from one world to another, and
the engine is as it was. -/
structure Aside (w w' : World) : Prop where
  engine : w'.engine = w.engine
  executed : w'.journal.executed = w.journal.executed
  script : ∀ n s, w.script? n = some s →
    ∃ s', w'.script? n = some s' ∧ s'.path = s.path ∧ s'.state = s.state ∧
      s'.hasContext = s.hasContext
  /-- Other instances are new. -/
  fresh : ∀ n s', w'.script? n = some s' →
    (∃ s, w.script? n = some s) ∨ s'.state = .created ∧ s'.hasContext = false

/-- Whether moreover no failure of a body was kept. -/
structure Blameless (w w' : World) : Prop extends Aside w w' where
  error : ∀ n s', w'.script? n = some s' → s'.error = (w.script? n).bind (·.error)

/-- Whether an instance is terminated. -/
def isGone (w : World) (n : Nat) : Bool := (w.script? n).any (·.state = .terminated)

namespace Aside

theorem refl (w : World) : Aside w w where
  engine := rfl
  executed := rfl
  script _ s hs := ⟨s, hs, rfl, rfl, rfl⟩
  fresh _ s hs := Or.inl ⟨s, hs⟩

theorem of_still (h : Still w w') (he : w'.engine = w.engine) : Aside w w' where
  engine := he
  executed := Journal.executed_of_lives h.lives
  script := h.script
  fresh n s' hs' := by
    have hl : n < w.scripts.length := h.length ▸ lt_of_script? hs'
    exact Or.inl ⟨_, List.getElem?_eq_getElem hl⟩

theorem trans (h : Aside w w₁) (h' : Aside w₁ w') : Aside w w' where
  engine := h'.engine.trans h.engine
  executed := h'.executed.trans h.executed
  script n s hs := by
    obtain ⟨s₁, hs₁, hp, ht, hc⟩ := h.script n s hs
    obtain ⟨s₂, hs₂, hp', ht', hc'⟩ := h'.script n s₁ hs₁
    exact ⟨s₂, hs₂, hp'.trans hp, ht'.trans ht, hc'.trans hc⟩
  fresh n s₂ hs₂ := by
    rcases h'.fresh n s₂ hs₂ with ⟨s₁, hs₁⟩ | hnew
    · rcases h.fresh n s₁ hs₁ with hold | ⟨ht, hc⟩
      · exact Or.inl hold
      · obtain ⟨s, hs, -, ht', hc'⟩ := h'.script n s₁ hs₁
        obtain rfl : s = s₂ := Option.some.inj (hs.symm.trans hs₂)
        exact Or.inr ⟨ht'.trans ht, hc'.trans hc⟩
    · exact Or.inr hnew

theorem isGone (h : Aside w w') (n : Nat) : w'.isGone n = w.isGone n := by
  unfold World.isGone
  rcases hs : w.script? n with _ | s
  · rcases hs' : w'.script? n with _ | s'
    · rfl
    · rcases h.fresh n s' hs' with ⟨s, hs₁⟩ | ⟨ht, -⟩
      · rw [hs] at hs₁
        cases hs₁
      · simp [ht]
  · obtain ⟨s', hs', -, ht, -⟩ := h.script n s hs
    simp [hs', ht]

end Aside

namespace Blameless

theorem refl (w : World) : Blameless w w := ⟨.refl w, fun n s hs => by rw [hs]; rfl⟩

theorem trans (h : Blameless w w₁) (h' : Blameless w₁ w') : Blameless w w' where
  toAside := h.toAside.trans h'.toAside
  error n s₂ hs₂ := by
    rw [h'.error n s₂ hs₂]
    cases hs₁ : w₁.script? n with
    | some s₁ => exact h.error n s₁ hs₁
    | none =>
      cases hs : w.script? n with
      | none => rfl
      | some s =>
        obtain ⟨s₁, hsome, -⟩ := h.script n s hs
        rw [hs₁] at hsome
        cases hsome

/-- Where instances stay as they are. -/
theorem of_scripts (hs : w'.scripts = w.scripts) (he : w'.engine = w.engine)
    (hj : w'.journal.executed = w.journal.executed) : Blameless w w' := by
  have hscript : w'.script? = w.script? := funext fun n => congrArg (·[n]?) hs
  have hrefl := refl w
  refine ⟨⟨he, hj, ?_, ?_⟩, ?_⟩ <;> rw [hscript]
  · exact hrefl.script
  · exact hrefl.fresh
  · exact hrefl.error

theorem of_calm (h : Calm w w') : Blameless w w' :=
  of_scripts (by rw [h.frame]) (by rw [h.frame]) (Journal.executed_of_lives h.lives)

/-- Where an instance changes that neither fails nor lives or dies. -/
theorem modify (f : Script → Script)
    (hf : ∀ s, (f s).path = s.path ∧ (f s).state = s.state ∧ (f s).hasContext = s.hasContext ∧
      (f s).error = s.error)
    (n : Nat) : Blameless w { w with scripts := w.scripts.modify n f } where
  toAside := .of_still (still_modify f (fun s => ⟨(hf s).1, (hf s).2.1, (hf s).2.2.1⟩) n) rfl
  error k s' hs' := by
    rw [script?_modify] at hs'
    split at hs'
    · obtain ⟨s, hs, rfl⟩ := Option.map_eq_some_iff.mp hs'
      rw [hs]
      exact (hf s).2.2.2
    · rw [hs']
      rfl

theorem reclaimed (h : Reclaimed n w w') : Blameless w w' where
  toAside := .of_still h.still (by rw [h.frame])
  error k s' hs' := by
    by_cases hk : k = n
    · subst hk
      obtain ⟨s, hs, he⟩ := h.script? hs'
      rw [hs, he]
      rfl
    · rw [← h.confined.others k hk, hs']
      rfl

end Blameless

theorem Pause.blameless (h : Pause w w') : Blameless w w' := by
  obtain ⟨fresh, hs, hf⟩ := h.scripts
  have hscript (n : Nat) : w'.script? n = (w.scripts ++ fresh)[n]? := congrArg (·[n]?) hs
  have hcases {n : Nat} {s' : Script} (hs' : w'.script? n = some s') :
      w.script? n = some s' ∨ w.script? n = none ∧ s' ∈ fresh := by
    rw [hscript, List.getElem?_append] at hs'
    split at hs'
    · exact Or.inl hs'
    · rename_i hl
      exact Or.inr ⟨List.getElem?_eq_none (Nat.not_lt.mp hl), List.mem_of_getElem? hs'⟩
  refine ⟨⟨by rw [h.frame], h.executed, fun n s hn => ⟨s, ?_, rfl, rfl, rfl⟩, fun n s' hs' => ?_⟩,
    fun n s' hs' => ?_⟩
  · exact (hscript n).trans ((List.getElem?_append_left (lt_of_script? hn)).trans hn)
  · exact (hcases hs').imp (fun hold => ⟨s', hold⟩) fun hnew =>
      ⟨(hf s' hnew.2).1, (hf s' hnew.2).2.1⟩
  · rcases hcases hs' with hold | ⟨hnone, hnew⟩
    · rw [hold]
      rfl
    · rw [hnone]
      exact (hf s' hnew).2.2

end World

namespace Execution

/-- Whether an execution of a path came to its end. -/
def completes (p : Path) (e : Execution) : Bool := e.path = p && e.result.isSome

end Execution

namespace World

/-- What the engine keeps of an execution: the variables, until the instance is terminated. -/
def variables? (w : World) (e : Execution) : Option (Nat × Namespace) :=
  if w.isGone e.script then none else e.result.map (e.script, ·)

theorem variables?_eq_some {e : Execution} {kept : Nat × Namespace}
    (h : w.variables? e = some kept) :
    e.script = kept.1 ∧ e.result = some kept.2 := by
  rw [variables?] at h
  split at h
  · cases h
  · obtain ⟨ns, hns, rfl⟩ := Option.map_eq_some_iff.mp h
    exact ⟨rfl, hns⟩

/-- What the engine keeps where certain executions have been told. -/
structure Kept (told : List Execution) (w : World) : Prop where
  numbers : (told.map (·.script)).Nodup
  started : ∀ n, n ∈ told.map (·.script) ↔ ∃ s, w.script? n = some s ∧ s.hasContext = true
  past : ∀ e ∈ told, ∃ s, w.script? e.script = some s ∧ s.path = e.path ∧ s.state ≠ .created
  executed : w.journal.executed = (told.map (·.path)).reverse
  namespaces : w.engine.namespaces = (told.filterMap w.variables?).reverse
  latest : ∀ p, Registry.get? w.engine.latest p =
    (told.find? (·.completes p)).bind fun e => if w.isGone e.script then none else some e.script

namespace Kept

variable {told : List Execution} {ns : Namespace}

theorem new (hnew : w.IsNew) (hengine : w.engine = {}) : Kept [] w where
  numbers := List.nodup_nil
  started n := by simp [script?, hnew.scripts]
  past e he := by cases he
  executed := Journal.executed_of_lives (k := {}) hnew.lives
  namespaces := by rw [hengine]; rfl
  latest p := by rw [hengine]; rfl

theorem aside (h : Kept told w) (ha : Aside w w') : Kept told w' where
  numbers := h.numbers
  started n := by
    rw [h.started]
    constructor
    · rintro ⟨s, hs, hc⟩
      obtain ⟨s', hs', -, -, hc'⟩ := ha.script n s hs
      exact ⟨s', hs', hc'.trans hc⟩
    · rintro ⟨s', hs', hc⟩
      rcases ha.fresh n s' hs' with ⟨s, hs⟩ | ⟨-, hnone⟩
      · obtain ⟨t, ht, -, -, hc'⟩ := ha.script n s hs
        obtain rfl : t = s' := Option.some.inj (ht.symm.trans hs')
        exact ⟨s, hs, hc'.symm.trans hc⟩
      · rw [hnone] at hc
        cases hc
  past e he := by
    obtain ⟨s, hs, hp, ht⟩ := h.past e he
    obtain ⟨s', hs', hp', ht', -⟩ := ha.script _ s hs
    exact ⟨s', hs', hp'.trans hp, ht' ▸ ht⟩
  executed := ha.executed.trans h.executed
  namespaces := by
    have hv : w'.variables? = w.variables? :=
      funext fun e => by rw [variables?, variables?, ha.isGone]
    rw [ha.engine, h.namespaces, hv]
  latest p := by simp only [ha.engine, h.latest, ha.isGone]

/-- Who is to be run for the first time was not executed. -/
theorem not_told (h : Kept told w) (hs : w.script? n = some s) (hc : s.state = .created) :
    ∀ e ∈ told, e.script ≠ n := by
  rintro e he rfl
  obtain ⟨t, ht, -, hpast⟩ := h.past e he
  obtain rfl : s = t := Option.some.inj (hs.symm.trans ht)
  exact hpast hc

theorem isGone_started (hs : w.script? n = some s) (hc : s.state = .created) (k : Nat) :
    (w.started n s).isGone k = w.isGone k := by
  unfold World.isGone
  by_cases hk : n = k
  · subst hk
    rw [script?_started hs, hs]
    simp [hc]
  · exact congrArg (Option.any _) (script?_other _ hk)

/-- Who is started is told, with nothing to show for it as yet. -/
theorem start (h : Kept told w) (hs : w.script? n = some s) (hc : s.state = .created) :
    Kept (⟨n, s.path, none⟩ :: told) (w.started n s) where
  numbers := by
    refine List.nodup_cons.mpr ⟨fun hm => ?_, h.numbers⟩
    obtain ⟨e, he, hn⟩ := List.mem_map.mp hm
    exact h.not_told hs hc e he hn
  started k := by
    rw [List.map_cons, List.mem_cons, h.started]
    by_cases hk : n = k
    · subst hk
      exact iff_of_true (Or.inl rfl) ⟨_, script?_started hs, rfl⟩
    · have hsame : (w.started n s).script? k = w.script? k := script?_other _ hk
      rw [hsame]
      exact or_iff_right (Ne.symm hk)
  past := by
    refine List.forall_mem_cons.mpr
      ⟨⟨_, script?_started hs, rfl, ScriptState.noConfusion⟩, fun e he => ?_⟩
    obtain ⟨t, ht, hpast⟩ := h.past e he
    have hsame : (w.started n s).script? e.script = w.script? e.script :=
      script?_other _ (h.not_told hs hc e he).symm
    exact ⟨t, hsame.trans ht, hpast⟩
  executed := by
    have hrecord := Journal.executed_record (.execute n s.path s.name (w.fileOf s.path).toText)
      w.journal
    rw [List.map_cons, List.reverse_cons, ← h.executed]
    exact hrecord
  namespaces := by
    have hv : (w.started n s).variables? = w.variables? := by
      funext e
      rw [variables?, variables?, isGone_started hs hc]
    have hnone : w.variables? ⟨n, s.path, none⟩ = none := by
      rw [variables?]
      split <;> rfl
    rw [hv, List.filterMap_cons_none hnone]
    exact h.namespaces
  latest p := by
    have hnot : Execution.completes p ⟨n, s.path, none⟩ = false := Bool.and_false _
    rw [List.find?_cons_of_neg (by rw [hnot]; decide)]
    simp only [isGone_started hs hc]
    exact h.latest p

/-- A body that comes to its end has its variables kept, and is the latest of its path. -/
theorem complete {p : Path} (h : Kept (⟨n, p, none⟩ :: told) w) (hn : w.isGone n = false)
    (ns : Namespace) :
    Kept (⟨n, p, some ns⟩ :: told) { w with engine := w.engine.keep p n ns } where
  numbers := h.numbers
  started := h.started
  past := List.forall_mem_cons.mpr (List.forall_mem_cons.mp h.past)
  executed := h.executed
  namespaces := by
    have hnone : w.variables? ⟨n, p, none⟩ = none := by
      rw [variables?]
      split <;> rfl
    have hsome : w.variables? ⟨n, p, some ns⟩ = some (n, ns) := by
      rw [variables?, hn]
      rfl
    have hkept : w.engine.namespaces = (told.filterMap w.variables?).reverse := by
      rw [h.namespaces, List.filterMap_cons_none hnone]
    have hold : ∀ kept ∈ w.engine.namespaces, kept.1 ≠ n := by
      rintro kept hk rfl
      rw [hkept, List.mem_reverse] at hk
      obtain ⟨e, he, hv⟩ := List.mem_filterMap.mp hk
      exact (List.nodup_cons.mp h.numbers).1 (List.mem_map.mpr ⟨e, he, (variables?_eq_some hv).1⟩)
    show w.engine.namespaces.filter (·.1 ≠ n) ++ [(n, ns)] =
      ((_ :: told).filterMap w.variables?).reverse
    rw [List.filterMap_cons_some hsome, List.reverse_cons, ← hkept,
      List.filter_eq_self.mpr (by simpa using hold)]
  latest q := by
    show Registry.get? (Registry.register p n w.engine.latest) q =
      ((⟨n, p, some ns⟩ :: told).find? (·.completes q)).bind fun e =>
        if w.isGone e.script then none else some e.script
    rw [Registry.get?_register]
    by_cases hq : q = p
    · subst hq
      rw [if_pos rfl, List.find?_cons_of_pos (by simp [Execution.completes]), Option.bind_some]
      simp [hn]
    · have hnot (r : Option Namespace) : ¬(Execution.completes q ⟨n, p, r⟩ = true) := by
        simp [Execution.completes, Ne.symm hq]
      rw [if_neg hq, h.latest, List.find?_cons_of_neg (hnot _), List.find?_cons_of_neg (hnot _)]

/-- What the engine keeps comes from an execution, and what is the latest of a path
from one of that path. -/
theorem told_of_mem (h : Kept told w) {kept : Nat × Namespace} (hk : kept ∈ w.engine.namespaces) :
    ∃ e ∈ told, w.variables? e = some kept := by
  rw [h.namespaces, List.mem_reverse] at hk
  exact List.mem_filterMap.mp hk

theorem told_of_latest (h : Kept told w) {p : Path}
    (hp : Registry.get? w.engine.latest p = some n) :
    ∃ e ∈ told, e.script = n ∧ e.path = p := by
  rw [h.latest] at hp
  obtain ⟨e, hfind, he⟩ := Option.bind_eq_some_iff.mp hp
  split at he
  · cases he
  · have hcompletes : e.path = p ∧ e.result.isSome = true := by
      simpa [Execution.completes] using List.find?_some hfind
    exact ⟨e, List.mem_of_find?_eq_some hfind, Option.some.inj he, hcompletes.1⟩

/-- Of an instance that is terminated the engine keeps nothing any more, and of
the others what it kept. -/
theorem drops (h : Kept told w) (hs : w.script? n = some s) :
    let engine := if s.hasContext then w.engine.release s.path n else w.engine
    engine.namespaces = w.engine.namespaces.filter (·.1 ≠ n) ∧
      ∀ p, Registry.get? engine.latest p = (Registry.get? w.engine.latest p).filter (· ≠ n) := by
  cases hc : s.hasContext with
  | true =>
    refine ⟨rfl, fun p => ?_⟩
    simp only [if_true, Engine.release, Registry.get?_unregister]
    rcases hp : Registry.get? w.engine.latest p with _ | k
    · split <;> rfl
    · by_cases hk : k = n
      · subst hk
        obtain ⟨e, he, rfl, rfl⟩ := h.told_of_latest hp
        obtain ⟨t, ht, hpath, -⟩ := h.past e he
        obtain rfl : s = t := Option.some.inj (hs.symm.trans ht)
        rw [if_pos ⟨hpath.symm, hpath ▸ hp⟩]
        simp [Option.filter_some]
      · rw [if_neg fun hboth => hk ?_]
        · simp [Option.filter_some, hk]
        · rw [← hboth.1, hp] at hboth
          exact Option.some.inj hboth.2
  | false =>
    have hnot : n ∉ told.map (·.script) := fun hm => by
      obtain ⟨t, ht, hcontext⟩ := (h.started n).mp hm
      obtain rfl : s = t := Option.some.inj (hs.symm.trans ht)
      rw [hc] at hcontext
      cases hcontext
    rw [if_neg Bool.false_ne_true]
    refine ⟨(List.filter_eq_self.mpr fun kept hk => decide_eq_true ?_).symm, fun p => ?_⟩
    · intro hn
      obtain ⟨e, he, hv⟩ := h.told_of_mem hk
      exact hnot (List.mem_map.mpr ⟨e, he, (variables?_eq_some hv).1.trans hn⟩)
    · rcases hp : Registry.get? w.engine.latest p with _ | k
      · rfl
      · obtain ⟨e, he, rfl, -⟩ := h.told_of_latest hp
        have hk : e.script ≠ n := fun hn => hnot (List.mem_map.mpr ⟨e, he, hn⟩)
        simp [Option.filter_some, hk]

theorem terminate (h : Kept told w) (hs : w.script? n = some s) (hw : Ended n s w w') :
    Kept told w' := by
  obtain ⟨resources, -, ha⟩ := hw
  have hself := ha.script? hs
  have hengine : w'.engine = if s.hasContext then w.engine.release s.path n else w.engine := by
    rw [ha.frame]
  have hgone (k : Nat) : w'.isGone k = (decide (k = n) || w.isGone k) := by
    unfold World.isGone
    by_cases hk : n = k
    · subst hk
      simp [hself]
    · rw [ha.others hk]
      simp [Ne.symm hk]
  obtain ⟨hnamespaces, hlatest⟩ := h.drops hs
  rw [← hengine] at hnamespaces hlatest
  refine ⟨h.numbers, fun k => ?_, fun e he => ?_, ha.executed.trans h.executed, ?_, fun p => ?_⟩
  · rw [h.started]
    by_cases hk : n = k
    · subst hk
      rw [hs, hself]
      simp
    · rw [ha.others hk]
  · obtain ⟨t, ht, hp, hpast⟩ := h.past e he
    by_cases hk : n = e.script
    · subst hk
      obtain rfl : s = t := Option.some.inj (hs.symm.trans ht)
      exact ⟨_, hself, hp, ScriptState.noConfusion⟩
    · exact ⟨t, (ha.others hk).trans ht, hp, hpast⟩
  · have hv (e : Execution) : w'.variables? e = (w.variables? e).filter (·.1 ≠ n) := by
      rw [variables?, variables?, hgone]
      cases w.isGone e.script <;> rcases e.result with _ | ns <;> simp [Option.filter_some]
    rw [hnamespaces, h.namespaces, List.filter_reverse, List.filter_filterMap]
    exact congrArg List.reverse (List.filterMap_congr fun e _ => (hv e).symm)
  · rw [hlatest, h.latest]
    rcases hfind : told.find? (·.completes p) with _ | e <;> rw [hfind]
    · rfl
    · simp only [Option.bind_some, hgone]
      cases w.isGone e.script <;> simp [Option.filter_some]

end Kept

/-- Whether a body came to its end exactly if its instance shows no failure. -/
structure Judged (told : List Execution) (w : World) : Prop where
  error : ∀ e ∈ told, ∃ s, w.script? e.script = some s ∧ (e.result.isSome = true ↔ s.error = none)
  fresh : ∀ n s, w.script? n = some s → s.state = .created → s.error = none

namespace Judged

variable {told : List Execution}

theorem new (hnew : w.IsNew) : Judged [] w where
  error := List.forall_mem_nil _
  fresh n s hs := by
    rw [script?, hnew.scripts] at hs
    cases hs

theorem aside (h : Judged told w) (hb : Blameless w w') : Judged told w' where
  error e he := by
    obtain ⟨s, hs, hiff⟩ := h.error e he
    obtain ⟨s', hs', -⟩ := hb.script _ s hs
    have herror := hb.error _ s' hs'
    rw [hs] at herror
    exact ⟨s', hs', by rw [herror]; exact hiff⟩
  fresh k s' hs' hc := by
    rw [hb.error k s' hs']
    cases hs : w.script? k with
    | none => rfl
    | some s =>
      obtain ⟨t, ht, -, hstate, -⟩ := hb.script k s hs
      obtain rfl : t = s' := Option.some.inj (ht.symm.trans hs')
      exact h.fresh k s hs (hstate.symm.trans hc)

/-- Where one instance changes and is past its first state, and keeps its
failure or was not told. -/
theorem change (h : Judged told w) (hs : w.script? n = some s) {s' : Script}
    (hs' : w'.script? n = some s') (hother : ∀ k, n ≠ k → w'.script? k = w.script? k)
    (hc : s'.state ≠ .created) (he : s'.error = s.error ∨ ∀ e ∈ told, e.script ≠ n) :
    Judged told w' where
  error e hm := by
    obtain ⟨t, ht, hiff⟩ := h.error e hm
    by_cases hk : n = e.script
    · obtain rfl : s = t := Option.some.inj (hs.symm.trans (hk ▸ ht))
      exact ⟨s', hk ▸ hs', by rwa [he.resolve_right fun hnot => hnot e hm hk.symm]⟩
    · exact ⟨t, (hother _ hk).trans ht, hiff⟩
  fresh k t ht hcreated := by
    by_cases hk : n = k
    · subst hk
      obtain rfl : s' = t := Option.some.inj (hs'.symm.trans ht)
      exact absurd hcreated hc
    · exact h.fresh k t ((hother k hk).symm.trans ht) hcreated

theorem cons (h : Judged told w) {e : Execution} (hs : w.script? e.script = some s)
    (hiff : e.result.isSome = true ↔ s.error = none) : Judged (e :: told) w :=
  ⟨List.forall_mem_cons.mpr ⟨⟨s, hs, hiff⟩, h.error⟩, h.fresh⟩

theorem start (h : Judged told w) (hs : w.script? n = some s) : Judged told (w.started n s) :=
  h.change hs (script?_started hs) (fun _ hk => script?_other _ hk) ScriptState.noConfusion
    (Or.inl rfl)

theorem terminate (h : Judged told w) (hs : w.script? n = some s) (hw : Ended n s w w') :
    Judged told w' := by
  obtain ⟨resources, -, ha⟩ := hw
  exact h.change hs (ha.script? hs) (fun _ hk => ha.others hk) ScriptState.noConfusion (Or.inl rfl)

end Judged

/-! Whatever the host does is told. -/

theorem script?_failed {t : Script} (ht : w.script? n = some t) (s : Script) (e : Failure) :
    (w.failed n s e).script? n = some { t with error := some (s.blames e) } :=
  (script?_modify w n ({ · with error := some (s.blames e) }) n).trans (by rw [if_pos rfl, ht]; rfl)

theorem still_failed (w : World) (n : Nat) (s : Script) (e : Failure) :
    Still w (w.failed n s e) := by
  have hm : Still w
    { w with scripts := w.scripts.modify n ({ · with error := some (s.blames e) }) } :=
    still_modify ({ · with error := some (s.blames e) }) (fun _ => ⟨rfl, rfl, rfl⟩) n
  exact ⟨rfl, rfl, rfl, rfl, rfl, hm.length, hm.script⟩

/-- A body that asks nothing of the host executes no other. -/
theorem Blameless.admits (hs : w.script? n = some s) :
    Admits R.silent n fun v => Blameless w v ∧ IsTame R.silent v where
  tame _ h := h.2
  known v h := by
    obtain ⟨s', hs', -⟩ := h.1.script n s hs
    exact ⟨s', hs'⟩
  nearby v v' h hl ht := ⟨h.1.trans (.of_calm hl.calm), ht⟩
  declare v f h hf := by
    refine ⟨h.1.trans (.modify f (fun t => ?_) n), h.2.modify n f fun t ht => by rwa [hf t]⟩
    rw [hf t]
    exact ⟨rfl, rfl, rfl, rfl⟩
  allocate v t resources h _ hr :=
    ⟨h.1.trans (.modify ({ · with resources }) (fun _ => ⟨rfl, rfl, rfl, rfl⟩) n),
      h.2.modify n ({ · with resources }) fun _ _ => hr.tame⟩
  unwatch v paths h :=
    ⟨h.1.trans (.reclaimed (ends_scriptUnwatch n paths v).1),
      Reached.tame_reclaimed h.2 (ends_scriptUnwatch n paths v).1⟩

theorem ends_runBody (ht : IsTame R.silent w) (hs : w.script? n = some s)
    (host : HostRequest → Act HostAnswer) :
    Ends (Blameless (w.started n s)) Ordinary (runBody host n s w) := by
  have hstart : Blameless (w.started n s) (w.started n s) ∧ IsTame R.silent (w.started n s) :=
    ⟨.refl _, Reached.tame_started ht n s⟩
  refine Ends.imp
    ((Blameless.admits (script?_started hs)).ends_body (fun v paths h _ => ?_) hstart s _
    fun _ _ _ _ ha => ha.elim) fun _ h => h.1
  exact ⟨h.1.trans (.reclaimed (ends_scriptWatch n paths v).1),
    Reached.tame_reclaimed h.2 (ends_scriptWatch n paths v).1⟩

/-- Whether a world is tame, and the engine and the instances show that certain
executions have taken place. -/
structure Recounts (R : Regime) (told : List Execution) (w : World) : Prop where
  tame : IsTame R.silent w
  kept : Kept told w
  judged : Judged told w

namespace Recounts

variable {told later : List Execution}

theorem aside (h : Recounts R told w) (hb : Blameless w w') (ht : IsTame R.silent w') :
    Recounts R told w' :=
  ⟨ht, h.kept.aside hb.toAside, h.judged.aside hb⟩

/-- A body that is run is told, with its variables if it came to its end. -/
theorem run (h : Recounts R told w) (depth : Nat) (hs : w.script? n = some s)
    (hc : s.state = .created) :
    Recounts R (⟨n, s.path, (runBody (hostAt depth) n s w).1.toOption⟩ :: told)
      (run (hostAt depth) n w).2 := by
  have hbody := ends_runBody h.tame hs (hostAt depth)
  have hrun : Ends (Apart R.silent (· = n) w) (fun _ => False) (World.run (hostAt depth) n w) :=
    Apart.ends_run (fun _ ha => ha) h.tame hs
  have htame := hrun.1.tame
  have hkept := (h.kept.start hs hc).aside hbody.1.toAside
  have hjudged := (h.judged.start hs).aside hbody.1
  obtain ⟨t, hn, -, hstate, -⟩ := hbody.1.script n _ (script?_started hs)
  have herror : t.error = none := by
    have hsame := hbody.1.error n t hn
    rw [script?_started hs] at hsame
    exact hsame.trans (h.judged.fresh n s hs hc)
  rcases hb : runBody (hostAt depth) n s w with ⟨e | ns, w'⟩ <;> rw [hb] at hbody hkept hjudged hn
  · rw [run_of_ordinary hs hc hb (hbody.2 e rfl)] at htame ⊢
    have hfailed := script?_failed hn s e
    have hpast : t.state ≠ .created := by
      rw [hstate]
      exact ScriptState.noConfusion
    have hblamed := hjudged.change hn hfailed (fun _ hk => script?_other _ hk) hpast
      (Or.inr (h.kept.not_told hs hc))
    exact ⟨htame, hkept.aside (.of_still (still_failed w' n s e) rfl),
      hblamed.cons hfailed (iff_of_false nofun nofun)⟩
  · rw [run_of_ok hs hc hb] at htame ⊢
    have hlive : w'.isGone n = false := by
      rw [hbody.1.isGone, World.isGone, script?_started hs]
      rfl
    have hsettled := hjudged.cons (e := ⟨n, s.path, some ns⟩) hn (iff_of_true rfl herror)
    exact ⟨htame, hkept.complete hlive ns, hsettled.error, hsettled.fresh⟩

theorem terminate (h : Recounts R told w) (hR : ¬R.abandons) (hs : w.script? n = some s)
    (ho : s.isOver = false) :
    Recounts R told (World.terminate n w).2 := by
  have hresources := h.tame.resources s (List.mem_of_getElem? hs)
  have hended := (ends_thorough (E := fun _ => False) (R := R.silent) hR hresources hs ho).1
  exact ⟨(Apart.ends_terminate h.tame hs).1.tame, h.kept.terminate hs hended,
    h.judged.terminate hs hended⟩

/-- What a host executes while it does one thing is told after what was told before. -/
theorem executes (h : Recounts R told w) (hR : ¬R.abandons) (he : Executes R w later w') :
    Recounts R (later ++ told) w' := by
  induction he with
  | refl => exact h
  | pause _ hp ht ih => exact ih.aside hp.blameless ht
  | run depth _ hs hc ih => exact ih.run depth hs hc
  | terminate _ hs ho ih => exact ih.terminate hR hs ho

end Recounts

/-- However a history is told, the engine and the instances agree. -/
theorem Chronicle.recounts {told : List Execution} (h : Chronicle R w₀ told w) (hR : ¬R.abandons)
    (hnew : w₀.IsNew) (hengine : w₀.engine = {}) (htame : IsTame R.silent w₀) :
    Recounts R told w := by
  induction h with
  | new => exact ⟨htame, .new hnew hengine, .new hnew⟩
  | deed _ _ he ih => exact ih.executes hR he
  | outside _ hc ht ih => exact ih.aside (.of_calm hc) ht

/-! Every history can be told. -/

/-- Whether a world is reached, and so it is from another by what the host does at one
time, executing bodies. -/
structure Telling (R : Regime) (m₀ : Moment) (w₀ : World) (K : List Duty) (w : World) : Prop where
  reached : Reached R.silent m₀ K w
  told : ∃ told, Executes R w₀ told w

namespace Telling

variable {m₀ : Moment} {K K' : List Duty}

theorem pause (h : Telling R m₀ w₀ K w) (hr : Reached R.silent m₀ K' w') (hp : Pause w w') :
    Telling R m₀ w₀ K' w' := by
  obtain ⟨told, ht⟩ := h.told
  exact ⟨hr, told, ht.pause hp hr.tame⟩

/-- Where instances stay as they are, and nothing changes that a body can see. -/
theorem unchanged (h : Telling R m₀ w₀ K w) (hr : Reached R.silent m₀ K' w')
    (hf : w' = { w with
      registry := w'.registry, claims := w'.claims, operator := w'.operator, watch := w'.watch
      watchStarted := w'.watchStarted, executor := w'.executor, tasks := w'.tasks,
        isClosed := w'.isClosed
      isPolling := w'.isPolling, isStranded := w'.isStranded, thread := w'.thread,
        journal := w'.journal })
    (hj : w'.journal.executed = w.journal.executed) : Telling R m₀ w₀ K' w' := by
  refine h.pause hr ⟨?_, hj, [], ?_, List.forall_mem_nil _⟩
  · rw [hf]
  · rw [hf, List.append_nil]

theorem ends_terminate {toTerminate : List Nat}
    (h : Telling R m₀ w₀ (.commit ⟨[], n :: toTerminate⟩ :: K) w) :
    Ends
      (fun w' => Telling R m₀ w₀ (.commit ⟨[], toTerminate⟩ :: K) w' ∧
        (w.isClosed = true → w'.isClosed = true))
      Ordinary (terminate n w) := by
  obtain ⟨s, hs, hscript⟩ := h.reached.known_toTerminate
  obtain ⟨told, ht⟩ := h.told
  obtain ⟨⟨hreached, hclosed⟩, hraises⟩ := (Reached.sustains R.silent m₀).terminate h.reached
  refine ⟨⟨⟨hreached, told, ?_⟩, hclosed⟩, hraises⟩
  by_cases ho : s.isOver = true
  · rw [World.terminate, bind_of_ok hscript, if_pos ho]
    exact ht
  · exact ht.terminate hs (Bool.eq_false_iff.mpr ho)

theorem sustains (R : Regime) (m₀ : Moment) (w₀ : World) : Sustains R.silent (Telling R m₀ w₀) where
  sane h := h.reached.sane
  tame h := h.reached.tame
  calm h hc ht := by
    refine h.unchanged ((Reached.sustains ..).calm h.reached hc ht) ?_
      (Journal.executed_of_lives hc.lives)
    rw [hc.frame]
  plan {K w w₁ w'} h ho ht hf hm htame := by
    have hg := hm.grown ht
    refine h.pause ((Reached.sustains ..).plan h.reached ho ht hf hm htame)
      ⟨?_, Journal.executed_of_lives hg.lives, (w.reloads w.plan ++ w.plan.toLoad).map w₁.made, ?_,
        List.forall_mem_map.mpr fun _ _ => ⟨rfl, rfl, rfl⟩⟩
    · rw [hm.frame, ht.frame]
      rfl
    · rw [hm.scripts, ht.frame]
      rfl
  enqueue h := h.unchanged ((Reached.sustains ..).enqueue h.reached) rfl rfl
  dequeue i h hc := h.unchanged ((Reached.sustains ..).dequeue i h.reached hc) rfl rfl
  refuse h := h.unchanged ((Reached.sustains ..).refuse h.reached) rfl rfl
  done h := h.unchanged ((Reached.sustains ..).done h.reached) rfl rfl
  watchPaths {K w paths} h hp := by
    have hoperated : Operated w (watchPaths paths w).2 := operated_watchPaths ..
    refine h.unchanged ((Reached.sustains ..).watchPaths h.reached hp) ?_ ?_ <;> rw [hoperated]
  unwatchPaths {K w paths} h hp := by
    have hoperated : Operated w (unwatchPaths paths w).2 := operated_unwatchPaths ..
    refine h.unchanged ((Reached.sustains ..).unwatchPaths h.reached hp) ?_ ?_ <;> rw [hoperated]
  close h hR ho := h.unchanged ((Reached.sustains ..).close h.reached hR ho) rfl rfl
  clear h hR hc := h.unchanged ((Reached.sustains ..).clear h.reached hR hc) rfl rfl
  terminate h := h.ends_terminate

theorem runs (R : Regime) (m₀ : Moment) (w₀ : World) (depth : Nat) :
    Runs (Telling R m₀ w₀) (hostAt depth) := by
  intro n toRun toTerminate K w h
  obtain ⟨hreached, hraises⟩ :=
    Reached.runs (Reached.serves_hostAt depth) m₀ n toRun toTerminate K w h.reached
  refine ⟨?_, hraises⟩
  obtain ⟨s, hs, -⟩ := h.reached.known_toRun
  obtain ⟨told, ht⟩ := h.told
  by_cases hc : s.state = .created
  · exact ⟨hreached, _, ht.run depth hs hc⟩
  · rw [run_of_past _ hs hc] at hreached ⊢
    exact h.unchanged hreached rfl rfl

end Telling

/-- In a history whatever the host does can be told, and leads where a walk leads. -/
theorem chronicled {m₀ : Moment} (h : QuietHistory R w₀ w) (h₀ : Reached R.silent m₀ [] w₀) :
    Reached R.silent m₀ [] w ∧ ∃ told, Chronicle R w₀ told w := by
  have hdeed {told : List Execution} {w w' : World} (hw : Reached R.silent m₀ [] w)
      (ht : Chronicle R w₀ told w) (hd : Deed R w w') :
      Reached R.silent m₀ [] w' ∧ ∃ told, Chronicle R w₀ told w' := by
    have htelling : Telling R m₀ w [] w := ⟨hw, [], .refl⟩
    obtain ⟨hreached, later, he⟩ :=
      (Telling.sustains R m₀ w).of_deed (Telling.runs R m₀ w) hd htelling
    exact ⟨hreached, later ++ told, ht.deed hd he⟩
  induction h with
  | refl => exact ⟨h₀, [], .new⟩
  | request depth request _ hp hn ih =>
    exact hdeed ih.1 ih.2.choose_spec (.request depth request hp hn)
  | poll depth _ ih => exact hdeed ih.1 ih.2.choose_spec (.poll depth)
  | carry runner depth i _ hc ih => exact hdeed ih.1 ih.2.choose_spec (.carry runner depth i hc)
  | outside _ hc ht ih =>
    obtain ⟨hw, told, htold⟩ := ih
    exact ⟨hw.calm hc ht, told, htold.outside hc ht⟩

end World

end HotReload
