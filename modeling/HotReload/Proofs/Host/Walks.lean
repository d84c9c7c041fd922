import HotReload.Proofs.Host.Operations

/-!
# Operations in small steps

In a tame world every operation of the host is a walk, whatever its scripts do: instances are run
and terminated step by step, a commit is carried out to its end, and a cycle leaves a commit to be
done. The host that scripts see serves them to any depth.
-/
namespace HotReload.World

open Operation

namespace Reached

variable {R : Regime} {m₀ : Moment} {K K' : List Duty} {w w' : World} {E : Failure → Prop} {n : Nat}
  {toRun toTerminate : List Nat}

theorem known_toRun (h : Reached R m₀ (.commit ⟨n :: toRun, toTerminate⟩ :: K) w) :
    ∃ s, w.script? n = some s ∧ script n w = (.ok s, w) :=
  h.script_of_known (Moment.mem_numbers_cons.mpr (Or.inl (by simp [Duty.numbers])))

theorem known_toTerminate (h : Reached R m₀ (.commit ⟨[], n :: toTerminate⟩ :: K) w) :
    ∃ s, w.script? n = some s ∧ script n w = (.ok s, w) :=
  h.script_of_known (Moment.mem_numbers_cons.mpr (Or.inl (by simp [Duty.numbers])))

theorem known_ending {released : Bool} (h : Reached R m₀ (.ending n released :: K) w) :
    ∃ s, w.script? n = some s ∧ script n w = (.ok s, w) :=
  h.script_of_known (Moment.mem_numbers_cons.mpr (Or.inl (by simp [Duty.numbers])))

theorem known_commit {c : Commit} (h : Reached R m₀ (.commit c :: K) w) (n : Nat)
    (hn : n ∈ c.toRun ∨ n ∈ c.toTerminate) : n < w.scripts.length :=
  h.sane.known n (Moment.mem_numbers_cons.mpr (Or.inl (List.mem_append.mpr hn)))

theorem tame_turned (h : IsTame R w) (n : Nat) (state : ScriptState) :
    IsTame R (w.turned n state) :=
  h.modify n ({ · with state }) fun _ hs => hs

/-! Terminating an instance. -/

/-- Releasing a context fails at most after it was released. -/
theorem ends_releaseContext {s : Script} (h : Reached R m₀ (.ending n false :: K) w)
    (hs : w.script? n = some s) (hc : s.hasContext = true) :
    Ends (Reached R m₀ (.ending n true :: K)) Ordinary (releaseContext n w) := by
  have hw : Reached R m₀ (.ending n true :: K) (w.released n s) :=
    h.step (.release hs hc) (h.tame.transfer rfl rfl rfl rfl rfl)
  rw [releaseContext, bind_of_ok (script_of_some hs), record, modify_bind, modify_bind, get_bind]
  by_cases hf : w.releaseFaults.contains s.path = true
  · rw [if_pos hf]
    refine keeps_throw ?_ _ hw
    rfl
  · rw [if_neg hf]
    exact keeps_pure _ _ hw

theorem ends_terminate (h : Reached R m₀ (.commit ⟨[], n :: toTerminate⟩ :: K) w) :
    Ends (Reached R m₀ (.commit ⟨[], toTerminate⟩ :: K)) R.GivesUp (terminate n w) := by
  obtain ⟨s, hs, hscript⟩ := h.known_toTerminate
  rw [terminate, bind_of_ok hscript]
  by_cases ho : s.isOver = true
  · rw [if_pos ho]
    exact keeps_pure true w (h.step (.pass hs ho) h.tame)
  · rw [if_neg ho, updateScript, modify_bind]
    have h₁ := h.step (.begin hs (Bool.eq_false_iff.mpr ho)) (tame_turned h.tame n .terminating)
    have hI : Admits R n (Reached R m₀ (.ending n false :: .commit ⟨[], toTerminate⟩ :: K)) :=
      admits_ending n false
    refine (hI.ends_cleanly (E := fun _ => False) (hI.keeps_scriptUnwatchAll _ h₁)).andThen
      fun unwatched w₂ h₂ => ?_
    refine (hI.keeps_closeSilently w₂ h₂).bindInto (fun e w₃ h₃ he => ?_) fun closed w₃ h₃ => ?_
    · exact ⟨h₃.step (.abandon he.2) h₃.tame, he⟩
    obtain ⟨s₃, hs₃, hscript₃⟩ := h₃.known_ending
    rw [bind_of_ok hscript₃]
    by_cases hc : s₃.hasContext = true
    · simp only [if_pos hc]
      have hrelease := ends_releaseContext h₃ hs₃ hc
      refine ((admits_ending n true).ends_cleanly (E := fun _ => False) hrelease).andThen
        fun released w₄ h₄ => ?_
      obtain ⟨s₄, hs₄, -⟩ := h₄.known_ending
      exact keeps_pure _ _ (h₄.step (.finish hs₄ fun _ => rfl) (tame_turned h₄.tame n .terminated))
    · simp only [if_neg hc]
      have hf : s₃.hasContext = true → false = true := fun h => absurd h hc
      exact keeps_pure _ _ (h₃.step (.finish hs₃ hf) (tame_turned h₃.tame n .terminated))

theorem tame_started (h : IsTame R w) (n : Nat) (s : Script) :
    IsTame R (w.started n s) := by
  have hm := h.modify n ({ · with state := .running, hasContext := true }) fun _ hs => hs
  exact hm.transfer rfl rfl rfl rfl rfl

/-- While a body runs, its instance has the path that it was started with. -/
theorem complete {s : Script} (hs : w.script? n = some s)
    (h : Reached R ⟨w.started n s, .body n :: K⟩ (.body n :: K) w') (ns : Namespace) :
    Reached R ⟨w.started n s, .body n :: K⟩ K { w' with engine := w'.engine.keep s.path n ns } := by
  have hs₁ : (w.started n s).script? n = some { s with state := .running, hasContext := true } := by
    rw [started, launched]
    exact (script?_modify w n _ n).trans (by rw [if_pos rfl, hs]; rfl)
  obtain ⟨s', hs', hp⟩ := h.walk.script? hs₁
  have hstep := Step.complete (R := R) (K := K) ns hs'
  rw [hp] at hstep
  exact h.step hstep (h.tame.transfer rfl rfl rfl rfl rfl)

/-- What a body raised is kept with its instance. -/
theorem blame (h : Reached R m₀ K w) (e : Failure) :
    Reached R m₀ K { w with scripts := w.scripts.modify n ({ · with error := some e }) } :=
  h.step (.amend ({ · with error := some e }) fun _ => rfl)
    (h.tame.modify n ({ · with error := some e }) fun _ hs => hs)

section Serves

variable {host : HostRequest → Act HostAnswer} (hh : Serves R host)
include hh

/-! Running an instance. -/

/-- An instance is run if it was not run before, and running it raises nothing. -/
theorem ends_run (h : Reached R m₀ (.commit ⟨n :: toRun, toTerminate⟩ :: K) w) :
    Ends (fun w' => Reached R m₀ (.commit ⟨toRun, toTerminate⟩ :: K) w' ∧ w'.IsPast n) E
      (run host n w) := by
  obtain ⟨s, hs, hscript⟩ := h.known_toRun
  by_cases hc : s.state = .created
  · have hstart : Reached R m₀ (.body n :: .commit ⟨toRun, toTerminate⟩ :: K) (w.started n s) :=
      h.step (.start hs hc) (tame_started h.tame n s)
    have hpast : (w.started n s).IsPast n := by
      refine ⟨{ s with state := .running, hasContext := true }, ?_, ScriptState.noConfusion⟩
      rw [started, launched]
      exact (script?_modify w n _ n).trans (by rw [if_pos rfl, hs]; rfl)
    refine ((admits_body n).ends_run (scriptWatch n) hs hstart.restart
      (fun _ _ request _ => hh _ _ request) hc (fun w' e h' => blame h' e)
      (fun w' ns h' => complete hs h' ns) fun w' h' => ?_).imp
      fun w' h' => ⟨hstart.trans h', h'.walk.isPast hpast⟩
    exact h'.step .fail h'.tame
  · rw [run, bind_of_ok hscript, if_pos hc]
    have hskip := h.step (.skip hs hc) h.tame
    exact (keeps_log _ _ _ _ w hskip.restart).imp fun w' h' =>
      ⟨hskip.trans h', h'.walk.isPast ⟨s, hs, hc⟩⟩

/-! Commits. -/

/-- The first instances of a commit are run, and that raises nothing. -/
theorem ends_toRun {first rest : List Nat}
    (h : Reached R m₀ (.commit ⟨first ++ rest, toTerminate⟩ :: K) w) :
    Ends (fun w' => Reached R m₀ (.commit ⟨rest, toTerminate⟩ :: K) w' ∧ ∀ n ∈ first, w'.IsPast n) E
      (commit host ⟨first, []⟩ w) := by
  let J (left : Commit) (w' : World) : Prop :=
    left.toTerminate = [] ∧ Reached R m₀ (.commit ⟨left.toRun ++ rest, toTerminate⟩ :: K) w' ∧
      ∀ n ∈ first, n ∈ left.toRun ∨ w'.IsPast n
  have hstages : Ends (J ⟨[], []⟩) E (commit host ⟨first, []⟩ w) := by
    refine ends_commit_stages (J := J) (fun left w j h hj => ?_) (fun left w n h hn => ?_)
      (fun n left toTerminate w h => ?_) (fun n left w h => (List.cons_ne_nil _ _ h.1).elim)
      ⟨rfl, h, fun n hn => Or.inl hn⟩
    · exact ⟨h.1, h.2.1.calm ⟨rfl, hj⟩ (h.2.1.tame.transfer rfl rfl rfl rfl rfl), h.2.2⟩
    · obtain ⟨hnone, hleft, -⟩ := h
      rw [hnone] at hn
      have hmem := List.mem_append_left rest (hn.resolve_right List.not_mem_nil)
      obtain ⟨s, hs, -⟩ :=
        hleft.script_of_known (Moment.mem_numbers_cons.mpr (Or.inl (List.mem_append_left _ hmem)))
      exact ⟨s, hs⟩
    · obtain ⟨hnone, hleft, hpast⟩ := h
      refine (ends_run (E := fun _ => False) hh hleft.restart).imp fun w' h' =>
        ⟨hnone, hleft.trans h'.1, fun k hk => ?_⟩
      rcases hpast k hk with hk | hk
      · rcases List.mem_cons.mp hk with rfl | hk
        · exact Or.inr h'.2
        · exact Or.inl hk
      · exact Or.inr (h'.1.walk.isPast hk)
  exact hstages.imp fun w' h' => ⟨h'.2.1, fun n hn => (h'.2.2 n hn).resolve_left List.not_mem_nil⟩

end Serves

/-- Walks are kept by what the host does. -/
theorem sustains (R : Regime) (m₀ : Moment) : Sustains R (Reached R m₀) where
  sane h := h.sane
  tame h := h.tame
  calm h hc ht := h.calm hc.calm ht
  plan h ho ht hf hm htame := h.step (.plan ho ht hf hm) htame
  enqueue h := h.step .enqueue (h.tame.transfer rfl rfl rfl rfl rfl)
  dequeue i h hc := h.step (.dequeue i hc) (h.tame.transfer rfl rfl rfl rfl rfl)
  refuse h := h.step .refuse h.tame
  done h := h.step .done h.tame
  watchPaths h hp := h.step (.watchPaths _ hp) (h.tame.operated (operated_watchPaths ..))
  unwatchPaths h hp := h.step (.unwatchPaths _ hp) (h.tame.operated (operated_unwatchPaths ..))
  close h hR ho := h.step (.close hR ho) (h.tame.transfer rfl rfl rfl rfl rfl)
  clear h hR hc := h.step (.clear hR hc) (h.tame.transfer rfl rfl rfl rfl rfl)
  terminate h :=
    ((ends_terminate h.restart).imp fun _ h' =>
      ⟨h.trans h', fun hc => Walk.isClosed h'.walk hc⟩).mono fun _ he => he.1

theorem runs {host : HostRequest → Act HostAnswer} (hh : Serves R host) (m₀ : Moment) :
    Runs (Reached R m₀) host :=
  fun _ _ _ _ _ h => (ends_run hh h).imp fun _ h' => h'.1

/-- Once nothing is left to run, the terminations of the first instances are begun. -/
theorem ends_toTerminate {host : HostRequest → Act HostAnswer} {first rest : List Nat}
    (h : Reached R m₀ (.commit ⟨[], first ++ rest⟩ :: K) w) :
    Ends (Reached R m₀ (.commit ⟨[], rest⟩ :: K)) E (commit host ⟨[], first⟩ w) :=
  (sustains R m₀).ends_toTerminate h

/-! Cycles. -/

/-- A cycle that succeeds has carried its plan out. -/
theorem remade_of_cycle {done : Applied} (h : Reached R m₀ K w) (hc : cycle w = (.ok done, w')) :
    ∃ w₁, Tended w.polled w₁ ∧
      Remade w₁ (w.reloads w.plan ++ w.plan.toLoad) (w.plan.toUnload.map (·.1)) w' ∧
      done = Applied.extend
        { plan := w.plan } (w.reloads w.plan) w.plan.toLoad (w.plan.toUnload.map (·.1))
        (w.commitOf w.plan) := by
  rcases planCycle_cases h.tame.raisesAll with ⟨w₁, hp, ht, -⟩ | ⟨e, w₁, hp, -⟩
  · obtain ⟨w₂, hc', hm⟩ :=
      cycle_of_planCycle h.sane.registered (h.tame.isNullFree h.sane.named) hp ht
    rw [hc] at hc'
    cases hc'
    exact ⟨w₁, ht, hm, rfl⟩
  · rw [cycle, bind_of_error hp] at hc
    cases hc

theorem step_of_cycle {done : Applied} (h : Reached R m₀ K w) (ho : w.isClosed = false)
    (hc : cycle w = (.ok done, w')) :
    Step R ⟨w, K⟩ ⟨w', .commit done.commit :: K⟩ ∧ IsTame R w' := by
  obtain ⟨w₁, ht, hm, rfl⟩ := h.remade_of_cycle hc
  have hf := fits_plan h.sane.registered (h.tame.isNullFree h.sane.named)
  have hstep := Step.plan (R := R) (K := K) ho ht hf hm
  simp only [Applied.extend, List.nil_append]
  exact ⟨hstep, (h.tame.polled.tended ht).remade hm⟩

theorem cycle_ok {done : Applied} (h : Reached R m₀ K w) (ho : w.isClosed = false)
    (hc : cycle w = (.ok done, w')) : Reached R m₀ (.commit done.commit :: K) w' :=
  h.step (h.step_of_cycle ho hc).1 (h.step_of_cycle ho hc).2

section Serves

variable {host : HostRequest → Act HostAnswer} (hh : Serves R host)
include hh

/-- A commit is carried out to its end, and raises nothing. -/
theorem ends_commit {c : Commit} (h : Reached R m₀ (.commit c :: K) w) :
    Ends (Reached R m₀ K) E (commit host c w) :=
  (sustains R m₀).ends_commit (runs hh m₀) h

/-- What a cycle that has got a commit does with it is a walk. -/
theorem reconcile_of_cycle {done : Applied} (h : Reached R m₀ (.commit done.commit :: K) w')
    (ho : w.isClosed = false) (hc : cycle w = (.ok done, w')) :
    ∃ w₁, reconcile host w = (.ok done.plan, w₁) ∧ Reached R m₀ K w₁ :=
  (sustains R m₀).reconcile_of_cycle (runs hh m₀) h ho hc

theorem keeps_pollRound : Keeps (Reached R m₀ K) E (pollRound host) :=
  (sustains R m₀).keeps_pollRound (runs hh m₀)

/-- A host that was shut down without a failure is closed. -/
theorem shutdown_cases (hR : R.closes) (h : Reached R m₀ K w) :
    Ends (Reached R m₀ K) Ordinary (shutdown host w) ∧
      ∀ x, (shutdown host w).1 = .ok x → (shutdown host w).2.isClosed = true :=
  (sustains R m₀).shutdown_cases (runs hh m₀) hR h

end Serves

theorem ends_unwatchPaths {paths : List Path} (hp : R.unwatches w paths) (h : Reached R m₀ K w) :
    Ends (Reached R m₀ K) Ordinary (unwatchPaths paths w) :=
  (World.ends_unwatchPaths paths w).imp fun _ hw => hw ▸ (sustains R m₀).unwatchPaths h hp

/-- The host serves its scripts, however deep their requests are nested. -/
theorem serves_hostAt (depth : Nat) : Serves R (hostAt depth) := by
  induction depth with
  | zero =>
    intro m₀ K request _ _
    refine keeps_throw ?_
    rfl
  | succ depth ih => exact fun m₀ => (sustains R m₀).keeps_answer (runs ih m₀)

end Reached

end HotReload.World
