import HotReload.Proofs.Host.Planning

/-!
# Carrying out a plan

What applying a plan makes, registers and removes, in order. Nothing else changes; the
instances that were there are neither run nor terminated by it.
-/
namespace HotReload

namespace Registry

variable {α : Type} {registry : Registry α}

theorem keys_register (p : Path) (a : α) (registry : Registry α) :
    (registry.register p a).map (·.1) =
      if p ∈ registry.map (·.1) then registry.map (·.1) else registry.map (·.1) ++ [p] := by
  induction registry with
  | nil => simp [register]
  | cons entry rest ih =>
    by_cases h : entry.1 = p
    · simp [register, h]
    · have hne : ¬ p = entry.1 := fun he => h he.symm
      by_cases hr : p ∈ rest.map (·.1)
      · simp only [register, if_neg h, List.map_cons, ih, List.mem_cons, hr, or_true, if_true]
      · simp only [register, if_neg h, List.map_cons, ih, List.mem_cons, hr, hne, or_self, if_false,
          List.cons_append]

theorem nodup_register (hn : (registry.map (·.1)).Nodup) (p : Path) (a : α) :
    ((registry.register p a).map (·.1)).Nodup := by
  rw [keys_register]
  split
  · exact hn
  · exact hn.append (List.nodup_singleton p) (List.disjoint_singleton.mpr ‹_›)

theorem nodup_unregister [DecidableEq α] (hn : (registry.map (·.1)).Nodup) (p : Path) (a : α) :
    ((registry.unregister p a).map (·.1)).Nodup := by
  unfold unregister
  split
  · exact (List.filter_sublist.map _).nodup hn
  · exact hn

end Registry

namespace World

open Operation

/-- Whether no null character stands in the place of a path's file. -/
def IsNamed (w : World) (p : Path) : Prop := (w.fileOf p).hasNull = false

/-- The instance that is made for a path. -/
def made (w : World) (p : Path) : Script :=
  { Script.create p (w.modified? p).toOption.join with bindings := w.bindings }

/-- Following names never meets a null character. -/
theorem walk_ne_nullCharacter {t : FileTree FileContent} {fuel : Nat} {loc : Location}
    {parts : List String} :
    t.walk fuel loc parts ≠ .error .nullCharacter := by
  induction fuel generalizing loc parts with
  | zero => cases parts <;> simp [FileTree.walk]
  | succ fuel ih =>
    cases parts with
    | nil => simp [FileTree.walk]
    | cons part rest =>
      unfold FileTree.walk
      repeat' split
      all_goals first | exact ih | simp

theorem modified?_of_named {w : World} {p : Path} (h : IsNamed w p) :
    ∃ t, w.modified? p = .ok t := by
  have hl : w.files.lookup (w.fileOf p) ≠ .error .nullCharacter := by
    unfold FileTree.lookup FileTree.find
    rw [if_neg (by rw [h]; decide)]
    split
    · cases w.files.node? _ <;> simp
    · rename_i fault hf
      rintro ⟨⟩
      exact walk_ne_nullCharacter hf
  unfold modified? FileTree.modified?
  split
  · exact ⟨_, rfl⟩
  · exact ⟨_, rfl⟩
  · exact absurd ‹_› hl
  · exact ⟨_, rfl⟩

/-- What making instances for some paths and removing those of others has led to. -/
structure Remade (w : World) (fresh gone : List Path) (w' : World) : Prop where
  frame : w' = { w with scripts := w'.scripts, registry := w'.registry, journal := w'.journal }
  lives : w'.journal.lives = w.journal.lives
  scripts : w'.scripts = w.scripts ++ fresh.map w.made
  registry : ∀ p, w'.registry.get? p =
    if p ∈ fresh then some (w.scripts.length + fresh.idxOf p)
    else if p ∈ gone then none
    else w.registry.get? p
  nodup : (w'.registry.map (·.1)).Nodup

variable {w w' : World} {fresh gone : List Path}

theorem remade_refl (hn : (w.registry.map (·.1)).Nodup) : Remade w [] [] w :=
  ⟨rfl, rfl, by simp, by simp, hn⟩

theorem Remade.logged (h : Remade w fresh gone w') (event : String) (p : Path) :
    ∃ w'', logPath event p w' = (.ok (), w'') ∧ Remade w fresh gone w'' := by
  refine ⟨_, rfl, ?_, h.lives, h.scripts, h.registry, h.nodup⟩
  rw [h.frame]

theorem Remade.register (h : Remade w fresh gone w') {p : Path} (hf : p ∉ fresh) (hg : p ∉ gone)
    (hp : IsNamed w p) :
    ∃ w'', registerNew p w' = (.ok (w.scripts.length + fresh.length), w'') ∧
      Remade w (fresh ++ [p]) gone w'' := by
  obtain ⟨t, ht⟩ := modified?_of_named hp
  have hm : w.made p = { Script.create p t with bindings := w.bindings } := by
    simp only [made, ht]
    cases t <;> rfl
  have ht' : w'.modified? p = .ok t := by
    rw [h.frame]
    exact ht
  have hl : w'.scripts.length = w.scripts.length + fresh.length := by
    rw [h.scripts, List.length_append, List.length_map]
  have hb : w'.bindings = w.bindings := by rw [h.frame]
  have hs : newScript p w' = (.ok (w.scripts.length + fresh.length),
      { w' with scripts := w'.scripts ++ [w.made p] }) := by
    rw [newScript, get_bind, ht', hm, ← hb, ← hl]
    rfl
  refine ⟨_, bind_of_ok hs _, ?_, h.lives, ?_, fun q => ?_, ?_⟩
  · rw [h.frame]
  · rw [List.map_append, ← List.append_assoc, ← h.scripts]
    rfl
  · show ((w'.registry.register p (w.scripts.length + fresh.length)).get? q) = _
    rw [Registry.get?_register, h.registry]
    by_cases hq : q = p
    · subst hq
      simp [List.idxOf_append, hf]
    · simp only [List.mem_append, List.mem_singleton, hq, or_false, if_false]
      by_cases hqf : q ∈ fresh
      · simp [hqf, List.idxOf_append]
      · simp only [if_neg hqf]
  · exact Registry.nodup_register h.nodup _ _

theorem Remade.unregister (h : Remade w fresh gone w') {p : Path} {n : Nat} (hf : p ∉ fresh)
    (hg : p ∉ gone) (hp : w.registry.get? p = some n) :
    Remade w fresh (gone ++ [p]) { w' with registry := w'.registry.unregister p n } := by
  have hr : w'.registry.get? p = some n := by rw [h.registry, if_neg hf, if_neg hg, hp]
  refine ⟨?_, h.lives, h.scripts, fun q => ?_, Registry.nodup_unregister h.nodup _ _⟩
  · rw [h.frame]
  · show (w'.registry.unregister p n).get? q = _
    rw [Registry.get?_unregister, hr, h.registry]
    by_cases hq : q = p
    · subst hq
      simp [hf]
    · simp [hq]

/-- What has been done, with more of it. -/
def Applied.extend (done : Applied) (reloaded loaded unloaded : List Path) (c : Commit) :
    Applied where
  plan :=
    { done.plan with
      reloaded := done.plan.reloaded ++ reloaded
      loaded := done.plan.loaded ++ loaded
      unloaded := done.plan.unloaded ++ unloaded }
  commit := ⟨done.commit.toRun ++ c.toRun, done.commit.toTerminate ++ c.toTerminate⟩

theorem Applied.extend_nil (done : Applied) : done.extend [] [] [] ⟨[], []⟩ = done := by
  simp [extend]

theorem Applied.extend_extend (done : Applied) (r l u r' l' u' : List Path) (c c' : Commit) :
    (done.extend r l u c).extend r' l' u' c' =
      done.extend (r ++ r') (l ++ l') (u ++ u')
        ⟨c.toRun ++ c'.toRun, c.toTerminate ++ c'.toTerminate⟩ := by
  simp [extend]

/-- Reloads make one instance for each queued path that is registered. -/
theorem applyReloads_eq {queue : List Path} (done : Applied) (h : Remade w fresh [] w')
    (hn : queue.Nodup) (hf : ∀ p ∈ queue, p ∉ fresh)
    (hp : ∀ p ∈ queue, w.registry.contains p = true → IsNamed w p) :
    ∃ w'', applyReloads queue done w' =
        (.ok (done.extend (queue.filter w.registry.contains) [] []
          ⟨List.range' (w.scripts.length + fresh.length) (queue.filter w.registry.contains).length,
            queue.filterMap w.registry.get?⟩), w'') ∧
      Remade w (fresh ++ queue.filter w.registry.contains) [] w'' := by
  induction queue generalizing fresh done w' with
  | nil =>
    refine ⟨w', ?_, by simpa using h⟩
    rw [List.filter_nil, List.filterMap_nil, List.length_nil, List.range'_zero, Applied.extend_nil]
    rfl
  | cons p rest ih =>
    obtain ⟨hpr, hn⟩ := List.nodup_cons.mp hn
    have hg : w'.registry.get? p = w.registry.get? p := by
      rw [h.registry, if_neg (hf p (by simp)), if_neg (by simp)]
    rw [applyReloads, get_bind, hg]
    cases hr : w.registry.get? p with
    | none =>
      have hc := Registry.get?_eq_none_iff.mp hr
      obtain ⟨w'', ha, hw⟩ := ih done h hn (fun q hq => hf q (List.mem_cons_of_mem _ hq))
        fun q hq => hp q (List.mem_cons_of_mem _ hq)
      rw [List.filter_cons_of_neg (by simp [hc]), List.filterMap_cons_none hr]
      exact ⟨w'', ha, hw⟩
    | some old =>
      have hc := Registry.contains_iff.mpr ⟨old, hr⟩
      obtain ⟨w₁, h₁, hw₁⟩ := h.register (hf p (by simp)) (by simp) (hp p (by simp) hc)
      obtain ⟨w₂, h₂, hw₂⟩ := hw₁.logged "script_reloaded" p
      have hf' : ∀ q ∈ rest, q ∉ fresh ++ [p] := by
        intro q hq hm
        rcases List.mem_append.mp hm with hm | hm
        · exact hf q (List.mem_cons_of_mem _ hq) hm
        · exact hpr (List.mem_singleton.mp hm ▸ hq)
      obtain ⟨w'', ha, hw⟩ := ih (done.extend [p] [] [] ⟨[w.scripts.length + fresh.length], [old]⟩)
        hw₂ hn hf' fun q hq => hp q (List.mem_cons_of_mem _ hq)
      rw [List.filter_cons_of_pos hc, List.filterMap_cons_some hr]
      refine ⟨w'', ?_, by simpa [List.append_assoc] using hw⟩
      have hd : Applied.mk { done.plan with reloaded := done.plan.reloaded ++ [p] }
          ⟨done.commit.toRun ++ [w.scripts.length + fresh.length],
            done.commit.toTerminate ++ [old]⟩ =
          done.extend [p] [] [] ⟨[w.scripts.length + fresh.length], [old]⟩ := by
        simp [Applied.extend]
      dsimp only
      rw [bind_of_ok h₁, bind_of_ok h₂, hd, ha, Applied.extend_extend]
      simp [List.range'_succ, Nat.add_assoc]

/-- Loads make one instance for each path; none of them is registered. -/
theorem applyLoads_eq {paths : List Path} (done : Applied) (h : Remade w fresh [] w')
    (hn : paths.Nodup) (hf : ∀ p ∈ paths, p ∉ fresh) (hr : ∀ p ∈ paths, w.registry.get? p = none)
    (hp : ∀ p ∈ paths, IsNamed w p) :
    ∃ w'', applyLoads paths done w' =
        (.ok (done.extend [] paths []
          ⟨List.range' (w.scripts.length + fresh.length) paths.length, []⟩), w'') ∧
      Remade w (fresh ++ paths) [] w'' := by
  induction paths generalizing fresh done w' with
  | nil =>
    refine ⟨w', ?_, by simpa using h⟩
    rw [List.length_nil, List.range'_zero, Applied.extend_nil]
    rfl
  | cons p rest ih =>
    obtain ⟨hpr, hn⟩ := List.nodup_cons.mp hn
    have hg : w'.registry.get? p = none := by
      rw [h.registry, if_neg (hf p (by simp)), if_neg (by simp), hr p (by simp)]
    obtain ⟨w₁, h₁, hw₁⟩ := h.register (hf p (by simp)) (by simp) (hp p (by simp))
    obtain ⟨w₂, h₂, hw₂⟩ := hw₁.logged "script_loaded" p
    have hf' : ∀ q ∈ rest, q ∉ fresh ++ [p] := by
      intro q hq hm
      rcases List.mem_append.mp hm with hm | hm
      · exact hf q (List.mem_cons_of_mem _ hq) hm
      · exact hpr (List.mem_singleton.mp hm ▸ hq)
    obtain ⟨w'', ha, hw⟩ := ih (done.extend [] [p] [] ⟨[w.scripts.length + fresh.length], []⟩)
      hw₂ hn hf' (fun q hq => hr q (List.mem_cons_of_mem _ hq))
      fun q hq => hp q (List.mem_cons_of_mem _ hq)
    refine ⟨w'', ?_, by simpa [List.append_assoc] using hw⟩
    have hd : Applied.mk { done.plan with loaded := done.plan.loaded ++ [p] }
        ⟨done.commit.toRun ++ [w.scripts.length + fresh.length], done.commit.toTerminate⟩ =
        done.extend [] [p] [] ⟨[w.scripts.length + fresh.length], []⟩ := by
      simp [Applied.extend]
    rw [applyLoads, get_bind, hg]
    dsimp only
    rw [bind_of_ok h₁, bind_of_ok h₂, hd, ha, Applied.extend_extend]
    simp [List.range'_succ, Nat.add_assoc]

/-- Unloads remove the instances of their paths. -/
theorem applyUnloads_eq {entries : List (Path × Nat)} (done : Applied)
    (h : Remade w fresh gone w') (hn : (entries.map (·.1)).Nodup)
    (hf : ∀ e ∈ entries, e.1 ∉ fresh) (hg : ∀ e ∈ entries, e.1 ∉ gone)
    (hr : ∀ e ∈ entries, w.registry.get? e.1 = some e.2) :
    ∃ w'', applyUnloads entries done w' =
        (.ok (done.extend [] [] (entries.map (·.1)) ⟨[], entries.map (·.2)⟩), w'') ∧
      Remade w fresh (gone ++ entries.map (·.1)) w'' := by
  induction entries generalizing gone done w' with
  | nil =>
    refine ⟨w', ?_, by simpa using h⟩
    rw [List.map_nil, List.map_nil, Applied.extend_nil]
    rfl
  | cons entry rest ih =>
    obtain ⟨p, old⟩ := entry
    rw [List.map_cons, List.nodup_cons] at hn
    have hw₁ := h.unregister (hf (p, old) (by simp)) (hg (p, old) (by simp)) (hr (p, old) (by simp))
    obtain ⟨w₂, h₂, hw₂⟩ := hw₁.logged "script_unloaded" p
    have hg' : ∀ e ∈ rest, e.1 ∉ gone ++ [p] := by
      intro e he hm
      rcases List.mem_append.mp hm with hm | hm
      · exact hg e (List.mem_cons_of_mem _ he) hm
      · exact hn.1 (List.mem_map.mpr ⟨e, he, List.mem_singleton.mp hm⟩)
    obtain ⟨w'', ha, hw⟩ := ih (done.extend [] [] [p] ⟨[], [old]⟩) hw₂ hn.2
      (fun e he => hf e (List.mem_cons_of_mem _ he)) hg' fun e he =>
        hr e (List.mem_cons_of_mem _ he)
    refine ⟨w'', ?_, by simpa [List.append_assoc] using hw⟩
    have hd : Applied.mk { done.plan with unloaded := done.plan.unloaded ++ [p] }
        ⟨done.commit.toRun, done.commit.toTerminate ++ [old]⟩ = done.extend [] [] [p]
          ⟨[], [old]⟩ := by
      simp [Applied.extend]
    rw [applyUnloads, modify_bind, bind_of_ok h₂, hd, ha, Applied.extend_extend]
    simp

/-- What a plan must satisfy to be carried out: it fits what is registered. -/
structure Fits (w : World) (plan : Plan Nat) : Prop where
  queueNodup : plan.reloadQueue.Nodup
  loadNodup : plan.toLoad.Nodup
  unloadNodup : (plan.toUnload.map (·.1)).Nodup
  load : ∀ p ∈ plan.toLoad, w.registry.get? p = none
  unload : ∀ e ∈ plan.toUnload, w.registry.get? e.1 = some e.2
  apart : ∀ e ∈ plan.toUnload, e.1 ∉ plan.reloadQueue
  named : ∀ p, p ∈ plan.toLoad ∨ p ∈ plan.reloadQueue ∧ w.registry.contains p = true → IsNamed w p

/-- The queued paths that get a new instance: those that are registered. -/
def reloads (w : World) (plan : Plan Nat) : List Path := plan.reloadQueue.filter w.registry.contains

/-- The commit of a plan: its new instances, in order, and those that they
replace or that are removed. -/
def commitOf (w : World) (plan : Plan Nat) : Commit where
  toRun := List.range' w.scripts.length (w.reloads plan ++ plan.toLoad).length
  toTerminate := plan.reloadQueue.filterMap w.registry.get? ++ plan.toUnload.map (·.2)

theorem mem_reloads {plan : Plan Nat} {p : Path} :
    p ∈ w.reloads plan ↔ p ∈ plan.reloadQueue ∧ ∃ n, w.registry.get? p = some n := by
  rw [reloads, List.mem_filter, Registry.contains_iff]

/-- No path gets two new instances. -/
theorem Fits.nodup {plan : Plan Nat} (h : Fits w plan) : (w.reloads plan ++ plan.toLoad).Nodup := by
  refine List.nodup_append'.mpr ⟨h.queueNodup.filter _, h.loadNodup, fun p hp hl => ?_⟩
  obtain ⟨-, k, hk⟩ := mem_reloads.mp hp
  rw [h.load p hl] at hk
  cases hk

/-- Carrying out a plan that fits. -/
theorem apply_eq {plan : Plan Nat} (hn : (w.registry.map (·.1)).Nodup) (h : Fits w plan) :
    ∃ w', apply plan w =
        (.ok (Applied.extend { plan } (w.reloads plan) plan.toLoad (plan.toUnload.map (·.1))
          (w.commitOf plan)), w') ∧
      Remade w (w.reloads plan ++ plan.toLoad) (plan.toUnload.map (·.1)) w' := by
  obtain ⟨w₁, h₁, hw₁⟩ := applyReloads_eq { plan } (remade_refl hn) h.queueNodup (by simp)
    fun p hp hc => h.named p (Or.inr ⟨hp, hc⟩)
  rw [List.nil_append] at hw₁
  have hload : ∀ p ∈ plan.toLoad, p ∉ w.reloads plan := by
    intro p hp hm
    obtain ⟨-, n, hn⟩ := mem_reloads.mp hm
    rw [h.load p hp] at hn
    cases hn
  obtain ⟨w₂, h₂, hw₂⟩ := applyLoads_eq (Applied.extend { plan } (w.reloads plan) [] []
      ⟨List.range' w.scripts.length (w.reloads plan).length,
        plan.reloadQueue.filterMap w.registry.get?⟩)
    hw₁ h.loadNodup hload h.load fun p hp => h.named p (Or.inl hp)
  have hunload : ∀ e ∈ plan.toUnload, e.1 ∉ w.reloads plan ++ plan.toLoad := by
    intro e he hm
    rcases List.mem_append.mp hm with hm | hm
    · exact h.apart e he (mem_reloads.mp hm).1
    · have := h.load e.1 hm
      rw [h.unload e he] at this
      cases this
  obtain ⟨w₃, h₃, hw₃⟩ := applyUnloads_eq (Applied.extend { plan } (w.reloads plan) plan.toLoad []
      ⟨(w.commitOf plan).toRun, plan.reloadQueue.filterMap w.registry.get?⟩)
    hw₂ h.unloadNodup hunload (by simp) h.unload
  rw [List.nil_append] at hw₃
  refine ⟨w₃, ?_, hw₃⟩
  have hrun : List.range' w.scripts.length (w.reloads plan).length ++
      List.range' (w.scripts.length + (w.reloads plan).length) plan.toLoad.length =
      (w.commitOf plan).toRun := by
    rw [commitOf, List.length_append, List.range'_append_1]
  have hmade : (Applied.extend { plan } (w.reloads plan) [] []
        ⟨List.range' w.scripts.length (w.reloads plan).length,
          plan.reloadQueue.filterMap w.registry.get?⟩).extend [] plan.toLoad []
        ⟨List.range' (w.scripts.length + (w.reloads plan).length) plan.toLoad.length, []⟩ =
      Applied.extend { plan } (w.reloads plan) plan.toLoad []
        ⟨(w.commitOf plan).toRun, plan.reloadQueue.filterMap w.registry.get?⟩ := by
    rw [Applied.extend_extend]
    simp only [hrun, List.append_nil, List.nil_append]
  have hdone : (Applied.extend { plan } (w.reloads plan) plan.toLoad []
        ⟨(w.commitOf plan).toRun, plan.reloadQueue.filterMap w.registry.get?⟩).extend [] []
        (plan.toUnload.map (·.1)) ⟨[], plan.toUnload.map (·.2)⟩ =
      Applied.extend { plan } (w.reloads plan) plan.toLoad (plan.toUnload.map (·.1))
        (w.commitOf plan) := by
    rw [Applied.extend_extend]
    simp only [commitOf, List.append_nil, List.nil_append]
  rw [hdone] at h₃
  rw [apply, bind_of_ok h₁]
  exact (bind_of_ok (h₂.trans (congrArg (fun done => (Except.ok done, w₂)) hmade)) _).trans h₃

end World

end HotReload
