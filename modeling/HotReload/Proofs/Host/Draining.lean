import HotReload.Proofs.Host.Shutdown
import HotReload.Proofs.Host.Traversal

/-!
# Waiting for the pool

While the scripts of a host ask nothing of it, its commits leave the pool and what waits for it as
they are. A host whose commits wait for its pool is served by another thread than the pool's, so
that a shutdown waits for the pool until nothing is left of what it was given.
-/
namespace HotReload.World

open Operation Moment

/-- Whether the host is as open as it was, and its threads, its poll loop, its pool and what waits
for it are as they were. -/
structure Steady (w w' : World) : Prop where
  isClosed : w'.isClosed = w.isClosed
  isPolling : w'.isPolling = w.isPolling
  isStranded : w'.isStranded = w.isStranded
  lacksThreads : w'.lacksThreads = w.lacksThreads
  pollIntervalMs : w'.pollIntervalMs = w.pollIntervalMs
  executor : w'.executor = w.executor
  thread : w'.thread = w.thread
  poolThread : w'.poolThread = w.poolThread
  tasks : w'.tasks = w.tasks

/-- Whether threads can be started, and the end of the poll loop can be waited for. -/
structure IsJoinable (w : World) : Prop where
  threads : w.lacksThreads = false
  stranded : w.isStranded = false
  interval : w.pollIntervalMs ≤ joinLimitMs

/-- Whether the commits of an open host wait for its pool, another thread serves the host, and that
thread can wait for the poll loop. -/
structure IsManned (w : World) : Prop extends IsJoinable w where
  isOpen : w.isClosed = false
  executor : w.executor = .pool false
  caller : w.thread ≠ w.poolThread

variable {R : Regime} {m₀ : Moment} {K : List Duty} {w w' w'' : World} {c : Commit}
  {E : Failure → Prop} (depth : Nat)

theorem steady_refl (w : World) : Steady w w := ⟨rfl, rfl, rfl, rfl, rfl, rfl, rfl, rfl, rfl⟩

theorem Steady.trans (h : Steady w w') (h' : Steady w' w'') : Steady w w'' where
  isClosed := h'.isClosed.trans h.isClosed
  isPolling := h'.isPolling.trans h.isPolling
  isStranded := h'.isStranded.trans h.isStranded
  lacksThreads := h'.lacksThreads.trans h.lacksThreads
  pollIntervalMs := h'.pollIntervalMs.trans h.pollIntervalMs
  executor := h'.executor.trans h.executor
  thread := h'.thread.trans h.thread
  poolThread := h'.poolThread.trans h.poolThread
  tasks := h'.tasks.trans h.tasks

theorem Booked.steady (h : Booked w w') : Steady w w' := by
  constructor <;> rw [h.frame]

theorem Confined.steady {N : Nat → Prop} (h : Confined N w w') : Steady w w' := by
  constructor <;> rw [h.frame]

theorem IsJoinable.joinFault? (h : IsJoinable w) : w.joinFault? = none := by
  rw [World.joinFault?, h.stranded, if_neg (Int.not_lt.mpr h.interval)]
  exact ite_self none

theorem Steady.isManned (h : Steady w w') (hm : IsManned w) : IsManned w' where
  threads := h.lacksThreads.trans hm.threads
  stranded := h.isStranded.trans hm.stranded
  interval := h.pollIntervalMs ▸ hm.interval
  isOpen := h.isClosed.trans hm.isOpen
  executor := h.executor.trans hm.executor
  caller := by
    rw [h.thread, h.poolThread]
    exact hm.caller

/-! Cycles and commits. -/

theorem Steady.bears (w : World) : Bears (Steady w) where
  booked h hb := h.trans hb.steady
  make h _ _ := h.trans ⟨rfl, rfl, rfl, rfl, rfl, rfl, rfl, rfl, rfl⟩
  feed h _ := h.trans ⟨rfl, rfl, rfl, rfl, rfl, rfl, rfl, rfl, rfl⟩
  tend h _ _ := h.trans ⟨rfl, rfl, rfl, rfl, rfl, rfl, rfl, rfl, rfl⟩

theorem Steady.ends_cycle (w : World) : Ends (Steady w) anything (cycle w) :=
  (Steady.bears w).keeps_cycle w (steady_refl w)

/-- A commit of which the bodies ask nothing of the host. -/
theorem Steady.ends_commit (h : Reached R.silent m₀ (.commit c :: K) w) :
    Ends (fun w' => Reached R.silent m₀ K w' ∧ Steady w w') E (commit (hostAt depth) c w) := by
  have hk (n : Nat) (hn : n ∈ c.toRun ∨ n ∈ c.toTerminate) : n < w.scripts.length :=
    h.sane.known n (mem_numbers_cons.mpr (Or.inl (List.mem_append.mpr hn)))
  have hreached : Ends (Reached R.silent m₀ K) E (commit (hostAt depth) c w) :=
    (Reached.sustains R.silent m₀).ends_commit (Reached.runs (Reached.serves_hostAt depth) m₀) h
  exact hreached.and
    ((Apart.ends_commit (fun _ ha => ha) h.tame hk).imp fun _ h' => h'.confined.steady)

/-- The pool carries a commit out on its own thread, and afterwards the caller's runs again. -/
theorem Steady.ends_runPooled (h : Reached R.silent m₀ (.commit c :: K) w) :
    Ends (fun w' => Reached R.silent m₀ K w' ∧ Steady w w') E (runPooled (hostAt depth) c w) := by
  have hthread {K : List Duty} {w : World} (h : Reached R.silent m₀ K w) (name : String) :
      Reached R.silent m₀ K { w with thread := name } :=
    h.calm ⟨rfl, rfl⟩ (h.tame.transfer rfl rfl rfl rfl rfl)
  rw [runPooled, get_bind, modify_bind]
  have hcommit := Steady.ends_commit (E := fun _ => False) depth (hthread h w.poolThread)
  refine (ends_attempt hcommit fun _ he => he.elim).andThen fun _ w₁ h₁ =>
    ends_ok ⟨hthread h₁.1 _, ?_⟩
  have hsteady := h₁.2
  exact { hsteady with thread := rfl }

/-- The pool carries out the first of what waits, as many commits as it may,
and nothing is added. -/
theorem Steady.ends_drain (fuel : Nat) (h : Reached R.silent m₀ [] w) :
    Ends (fun w' => Reached R.silent m₀ [] w' ∧ Steady { w with tasks := w.tasks.drop fuel } w') E
      (drainWith (runPooled (hostAt depth)) fuel w) := by
  induction fuel generalizing w with
  | zero => exact keeps_pure () w ⟨h, steady_refl w⟩
  | succ fuel ih =>
    rw [drainWith, get_bind]
    rcases htasks : w.tasks with _ | ⟨c, rest⟩
    · refine keeps_pure () w ⟨h, rfl, rfl, rfl, rfl, rfl, rfl, rfl, rfl, ?_⟩
      rw [htasks]
      rfl
    · have hdequeue := (Reached.sustains R.silent m₀).dequeue 0 h (c := c) (by rw [htasks]; rfl)
      rw [htasks] at hdequeue
      refine (Steady.ends_runPooled depth hdequeue).andThen fun _ w₁ h₁ =>
        (ih h₁.1).imp fun w₂ h₂ => ?_
      have htail : Steady { w with tasks := rest.drop fuel }
        { w₁ with tasks := w₁.tasks.drop fuel } :=
        { h₁.2 with tasks := congrArg (List.drop fuel) h₁.2.tasks }
      exact ⟨h₂.1, htail.trans h₂.2⟩

/-! What leaves a host manned. -/

namespace IsManned

theorem keeps_log (component : String) (level : LogLevel) (event : String)
    (fields : List (String × Value)) :
    Keeps IsManned E (log component level event fields) :=
  keeps_modify fun _ h => { h with }

theorem submit {host : HostRequest → Act HostAnswer} (h : IsManned w) (c : Commit) :
    World.submit host c w = (.ok (), { w with tasks := w.tasks ++ [c] }) := by
  have henqueue : World.submit host c w = enqueue c w := by
    rw [World.submit, get_bind, h.executor]
  exact henqueue.trans rfl

/-- A cycle hands its commit to the pool. -/
theorem keeps_reconcile {host : HostRequest → Act HostAnswer} :
    Keeps IsManned anything (reconcile host) := by
  refine keeps_get_bind fun w h => ?_
  rw [if_neg (by rw [h.isOpen]; decide)]
  refine Ends.bind ((Steady.ends_cycle w).imp fun _ h' => h'.isManned h) fun done w₁ h₁ => ?_
  dsimp only
  split
  · rw [bind_of_ok (World.attempt_of_ok (h₁.submit _))]
    exact ends_ok { h₁ with }
  · exact keeps_pure _ w₁ h₁

theorem keeps_pollRound {host : HostRequest → Act HostAnswer} :
    Keeps IsManned anything (pollRound host) := by
  refine (keeps_attempting keeps_reconcile).bind fun result => ?_
  cases result with
  | ok _ => exact keeps_pure _
  | error e => exact keeps_log _ _ _ _

theorem keeps_startPolling : Keeps IsManned anything startPolling := by
  refine keeps_get_bind fun w h => ?_
  rw [set_bind, if_neg (by rw [h.threads]; decide)]
  exact ends_ok { h with stranded := h.threads }

theorem keeps_start : Keeps IsManned anything start := by
  refine keeps_get_bind fun w h => ?_
  rw [if_neg (by rw [h.isOpen]; decide)]
  split
  · exact keeps_startPolling w h
  · exact keeps_pure _ w h

/-- Preloading carries its commits out at once. -/
theorem keeps_preloadCycles (left cycles : Nat) :
    Keeps (fun w => Reached R.silent m₀ [] w ∧ IsManned w) anything
      (preloadCycles (hostAt depth) left cycles) := by
  induction left generalizing cycles with
  | zero => exact keeps_pure _
  | succ left ih =>
    refine keeps_get_bind fun w ⟨h, hm⟩ => ?_
    rw [if_neg (by rw [hm.isOpen]; decide), get_bind]
    have hcycle := Steady.ends_cycle w
    rcases (Reached.sustains R.silent m₀).cycle_cases h hm.isOpen with ⟨done, w₁, hc, h₁⟩ | ⟨e, w₁,
      hc, -, h₁⟩
      <;> rw [hc] at hcycle
    · rw [bind_of_ok hc]
      have hcommit := Steady.ends_commit (E := fun _ => False) depth h₁
      refine hcommit.andThen fun _ w₂ ⟨h₂, hsteady⟩ => ?_
      have hmanned : IsManned w₂ := hsteady.isManned (hcycle.1.isManned hm)
      rw [get_bind]
      split
      · exact keeps_pure _ w₂ ⟨h₂, hmanned⟩
      · exact ih _ w₂ ⟨h₂, hmanned⟩
    · rw [bind_of_error hc]
      exact ends_error ⟨h₁, hcycle.1.isManned hm⟩ trivial

theorem keeps_preload :
    Keeps (fun w => Reached R.silent m₀ [] w ∧ IsManned w) anything (preload (hostAt depth)) := by
  refine keeps_preloading (fun _ _ _ _ w h => ?_) fun left => keeps_preloadCycles depth left 0
  exact ends_ok ⟨(Reached.sustains R.silent m₀).journal h.1 rfl, { h.2 with }⟩

end IsManned

/-! Shutting down. -/

/-- Closing the pool leaves nothing that waits. -/
theorem IsManned.ends_closePool (hm : IsManned w) (h : Reached R.silent m₀ [] w) :
    Ends
      (fun w' =>
        Reached R.silent m₀ [] w' ∧ Steady { w with executor := .pool true, tasks := [] } w') E
      (closePool (hostAt depth) w) := by
  have hclosed : Reached R.silent m₀ [] { w with executor := .pool true } :=
    h.calm ⟨rfl, rfl⟩ ⟨h.tame.root, h.tame.here, h.tame.nodes, h.tame.tree, h.tame.raises,
      h.tame.named, fun _ he => Executor.noConfusion he, h.tame.resources⟩
  rw [closePool, get_bind, hm.executor]
  dsimp only
  rw [modify_bind, get_bind, if_neg hm.caller, drainPool, get_bind]
  refine (Steady.ends_drain depth _ hclosed).imp fun w' h' => ⟨h'.1, ?_⟩
  have hsteady := h'.2
  rwa [List.drop_eq_nil_of_le (Nat.le_add_right ..)] at hsteady

/-- Whether a host was shut down, and nothing waits or is claimed. -/
structure IsClosedDown (w : World) : Prop where
  isClosed : w.isClosed = true
  isPolling : w.isPolling = false
  tasks : w.tasks = []
  claims : w.claims = []

theorem Tended.isClosedDown (h : Tended w w') (hw : IsClosedDown w) : IsClosedDown w' := by
  rw [h.frame]
  exact ⟨hw.isClosed, hw.isPolling, hw.tasks, hw.claims⟩

/-- A shutdown that waits for the pool closes the host, whatever stopping the watch raises. -/
theorem IsManned.ends_shutdown (hm : IsManned w) (h : Reached R.silent m₀ [] w) (hR : R.closes) :
    Ends (fun w' => Reached R.silent m₀ [] w' ∧ IsClosedDown w') Ordinary
      (shutdown (hostAt depth) w) := by
  have hJ := Reached.sustains R.silent m₀
  have hidle : IsManned w.idled := { hm with stranded := rfl }
  rw [shutdown, bind_of_ok (stopPolling_of_none hm.joinFault?)]
  refine (hidle.ends_closePool (E := fun _ => False) depth (hJ.idle h)).andThen fun _ w₁ hpool => ?_
  obtain ⟨h₁, hsteady⟩ := hpool
  refine ((hJ.ends_closing hR h₁).and ?_).imp fun w' h' => ⟨h'.1.1, h'.2⟩
  have hopen : w₁.isClosed = false := hsteady.isClosed.trans hm.isOpen
  rw [get_bind, if_pos (by rw [hopen]; rfl), modify_bind, get_bind]
  have htame : IsTame R.silent { w₁ with isClosed := true } := h₁.tame.transfer rfl rfl rfl rfl rfl
  have hend := Apart.ends_terminateAll (E := fun _ => False) htame fun _ =>
    h₁.sane.registered.lt_length
  refine hend.andThen fun failures w₂ h₂ => ?_
  rw [modify_bind]
  have hdown : IsClosedDown { w₂ with claims := [] } := by
    rw [h₂.frame]
    exact ⟨rfl, hsteady.isPolling, hsteady.tasks, rfl⟩
  have htame₂ : IsTame R.silent { w₂ with claims := [] } := h₂.tame.transfer rfl rfl rfl rfl rfl
  refine Ends.bind ((ends_stopWatch htame₂).imp fun w₃ h₃ => h₃.isClosedDown hdown) fun _ => ?_
  exact keeps_modify fun _ h => ⟨h.isClosed, h.isPolling, h.tasks, h.claims⟩

end HotReload.World
