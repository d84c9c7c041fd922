import HotReload.Proofs.Host.Bodies

/-!
# Operations of the host

Every operation of the host comes down to a few changes and to running and terminating single
instances. What is kept by these, with what is still to be done in view, is kept by every operation,
by whoever carries out a commit, and by the host as scripts see it.
-/
namespace HotReload

/-- Whether what a request brings about may happen in a regime, whoever makes it. -/
structure Regime.Permits (R : Regime) (request : HostRequest) : Prop where
  watch : ∀ paths, request = .watch paths → ∀ p ∈ paths, R.spells (Path.parse p)
  unwatch : ∀ w paths, request = .unwatch paths → R.unwatches w (paths.map Path.parse)
  shutdown : request = .shutdown → R.closes

theorem Regime.permits (R : Regime) {request : HostRequest} (ha : R.asks request) :
    R.Permits request where
  watch paths h := R.spells_of_asks paths (h ▸ ha)
  unwatch w paths h := R.unwatches_of_asks w paths (h ▸ ha)
  shutdown h := R.closes_of_asks (h ▸ ha)

namespace World

open Operation

/-- Whether nothing changed that a body can see, and no instance lived or died: only the watch,
where commits are carried out, the poll loop, the thread and the journal. -/
structure Unseen (w w' : World) : Prop where
  frame : w' = { w with
    watch := w'.watch, watchStarted := w'.watchStarted, executor := w'.executor,
      isPolling := w'.isPolling
    isStranded := w'.isStranded, thread := w'.thread, journal := w'.journal }
  lives : w'.journal.lives = w.journal.lives

theorem Unseen.calm {w w' : World} (h : Unseen w w') : Calm w w' := by
  refine ⟨?_, h.lives⟩
  rw [h.frame]

theorem Framed.unseen {w w' : World} (h : Framed w w') : Unseen w w' := by
  refine ⟨?_, h.lives⟩
  rw [h.frame]

/-- Whether what is true with certain duties is kept by the changes that the host makes. -/
structure Sustains (R : Regime) (J : List Duty → World → Prop) : Prop where
  sane : ∀ {K w}, J K w → Moment.IsSane ⟨w, K⟩
  tame : ∀ {K w}, J K w → IsTame R w
  calm : ∀ {K w w'}, J K w → Unseen w w' → IsTame R w' → J K w'
  plan : ∀ {K w w₁ w'}, J K w → w.isClosed = false → Tended w.polled w₁ → Fits w w.plan →
    Remade w₁ (w.reloads w.plan ++ w.plan.toLoad) (w.plan.toUnload.map (·.1)) w' → IsTame R w' →
    J (.commit (w.commitOf w.plan) :: K) w'
  enqueue : ∀ {K w c}, J (.commit c :: K) w → J K { w with tasks := w.tasks ++ [c] }
  dequeue : ∀ {K w c} (i : Nat), J K w → w.tasks[i]? = some c →
    J (.commit c :: K) { w with tasks := w.tasks.eraseIdx i }
  refuse : ∀ {K w c}, J (.commit c :: K) w → J (.commit ⟨[], c.toTerminate⟩ :: K) w
  done : ∀ {K w}, J (.commit ⟨[], []⟩ :: K) w → J K w
  watchPaths : ∀ {K w paths}, J K w → (∀ p ∈ paths, R.spells p) → J K (watchPaths paths w).2
  unwatchPaths : ∀ {K w paths}, J K w → R.unwatches w paths → J K (unwatchPaths paths w).2
  close : ∀ {K w}, J K w → R.closes → w.isClosed = false →
    J (.commit ⟨[], w.registry.map (·.2)⟩ :: K) w.closed
  clear : ∀ {K w}, J K w → R.closes → w.isClosed = true → J K { w with claims := [] }
  /-- Terminating an instance takes it off the commit, and opens no host. -/
  terminate : ∀ {K w n toTerminate}, J (.commit ⟨[], n :: toTerminate⟩ :: K) w →
    Ends
      (fun w' => J (.commit ⟨[], toTerminate⟩ :: K) w' ∧ (w.isClosed = true → w'.isClosed = true))
      Ordinary (terminate n w)

/-- Whether running an instance takes it off the commit. -/
def Runs (J : List Duty → World → Prop) (host : HostRequest → Act HostAnswer) : Prop :=
  ∀ n toRun toTerminate K w, J (.commit ⟨n :: toRun, toTerminate⟩ :: K) w →
    Ends (J (.commit ⟨toRun, toTerminate⟩ :: K)) (fun _ => False) (run host n w)

/-- Whether a host keeps what is true, whatever it may be asked. -/
def Answers (R : Regime) (J : List Duty → World → Prop) (host : HostRequest → Act HostAnswer) :
    Prop :=
  ∀ K request, R.asks request → request.IsNamed → Keeps (J K) Ordinary (host request)

variable {R : Regime} {K : List Duty} {w w' : World} {E : Failure → Prop}
  {host : HostRequest → Act HostAnswer}

namespace Reached

theorem commit_eq (host : HostRequest → Act HostAnswer) (c : Commit) :
    commit host c = commit host ⟨c.toRun, []⟩ >>= fun _ => commit host ⟨[], c.toTerminate⟩ := by
  simp only [commit, bind_assoc]
  rfl

/-- The executor carries a commit out or takes it, or refuses it because of its state. -/
theorem submit_cases {J : World → Prop} {c : Commit}
    (hrefusal : ∀ e, w.executor = .refusable (some e) → e.isState = true)
    (hcommit : Ends J (fun _ => False) (commit host c w))
    (henqueue : J { w with tasks := w.tasks ++ [c] }) :
    (∃ w', submit host c w = (.ok (), w') ∧ J w') ∨ ∃ e, submit host c w = (.error e, w) ∧
      e.isState = true := by
  have hcommitted : ∃ w', commit host c w = (.ok (), w') ∧ J w' := by
    obtain ⟨_, w', hc, hw'⟩ := hcommit.succeeds
    exact ⟨w', hc, hw'⟩
  have hqueued : ∃ w', enqueue c w = (.ok (), w') ∧ J w' := ⟨_, rfl, henqueue⟩
  rw [submit, get_bind]
  rcases hx : w.executor with _ | ⟨_ | e⟩ | _ | ⟨_ | _⟩ | ⟨_ | _⟩
  · exact Or.inl hcommitted
  · exact Or.inl hcommitted
  · exact Or.inr ⟨e, rfl, hrefusal e hx⟩
  · exact Or.inl hqueued
  · exact Or.inl hqueued
  · exact Or.inr ⟨_, rfl, rfl⟩
  · exact Or.inl hqueued
  · exact Or.inr ⟨_, rfl, rfl⟩

/-- A cycle that has got a commit hands it over or carries it out, and answers its plan. -/
theorem reconcile_cases {J : World → Prop} {done : Applied} (ho : w.isClosed = false)
    (hc : cycle w = (.ok done, w')) (hrefusal : ∀ e, w'.executor = .refusable (some e) →
      e.isState = true)
    (hcommit : Ends J (fun _ => False) (commit host done.commit w'))
    (henqueue : J { w' with tasks := w'.tasks ++ [done.commit] })
    (hrefuse : ∀ entry, Ends J (fun _ => False)
      (commit host ⟨[], done.commit.toTerminate⟩ { w' with journal := w'.journal.enter entry }))
    (hempty : done.commit.toRun = [] ∧ done.commit.toTerminate = [] → J w') :
    ∃ w₁, reconcile host w = (.ok done.plan, w₁) ∧ J w₁ := by
  rw [reconcile, get_bind, if_neg (by rw [ho]; decide), bind_of_ok hc]
  by_cases hany : (!(done.commit.toRun.isEmpty && done.commit.toTerminate.isEmpty)) = true
  · rw [if_pos hany]
    rcases submit_cases hrefusal hcommit henqueue with ⟨w₂, hs, h₂⟩ | ⟨e, hs, he⟩
    · rw [bind_of_ok (World.attempt_of_ok hs)]
      exact ⟨w₂, rfl, h₂⟩
    · -- nothing of a refused commit is run, and what it replaces is terminated at once
      rw [bind_of_ok (World.attempt_of_handled hs he)]
      obtain ⟨_, w₃, hc₃, h₃⟩ := (hrefuse (.ofComponent "Reconciler" .error "commit_dispatch_failed"
        [("error", .text e.message), ("unstarted", .int done.commit.toRun.length)])).succeeds
      exact ⟨w₃, bind_of_ok hc₃ _, h₃⟩
  · rw [if_neg hany]
    exact ⟨w', rfl, hempty (by simpa using hany)⟩

end Reached

open Reached

/-- A commit is carried out instance by instance, and leads through worlds that are told apart
by what is left of it. -/
theorem ends_commit_stages {J : Commit → World → Prop} {c : Commit}
    (hlog : ∀ c w j, J c w → j.lives = w.journal.lives → J c { w with journal := j })
    (hk : ∀ c w n, J c w → n ∈ c.toRun ∨ n ∈ c.toTerminate → ∃ s, w.script? n = some s)
    (hr : ∀ n toRun toTerminate w, J ⟨n :: toRun, toTerminate⟩ w →
      Ends (J ⟨toRun, toTerminate⟩) (fun _ => False) (run host n w))
    (ht : ∀ n toTerminate w, J ⟨[], n :: toTerminate⟩ w →
      Ends (J ⟨[], toTerminate⟩) Ordinary (terminate n w)) (h : J c w) :
    Ends (J ⟨[], []⟩) E (commit host c w) := by
  have hlogs (c : Commit) (level : LogLevel) (event : String) (fields : List (String × Value)) :
      Keeps (J c) (fun _ => False) (log "Reconciler" level event fields) :=
    keeps_modify fun w h => hlog c w _ h rfl
  have hrun : Ends (J ⟨[], c.toTerminate⟩) (fun _ => False) (commit host ⟨c.toRun, []⟩ w) := by
    refine Ends.andThen (I := J ⟨[], c.toTerminate⟩) ?_ fun _ w' h' => keeps_pure _ w' h'
    refine Ends.forM (J := fun left => J ⟨left, c.toTerminate⟩) (fun n left w h => ?_) h
    obtain ⟨s, hs⟩ := hk _ w n h (Or.inl (List.mem_cons_self ..))
    rw [bind_of_ok (script_of_some hs)]
    refine Ends.bind (ends_attempt (hr n _ _ w h) fun e he => he.elim) fun result => ?_
    cases result with
    | ok _ => exact keeps_pure _
    | error e => exact hlogs _ _ _ _
  rw [commit_eq]
  refine hrun.andThen fun _ w₁ h₁ => ?_
  refine Ends.forM (J := fun left => J ⟨[], left⟩) (fun n left w h => ?_) h₁
  obtain ⟨s, hs⟩ := hk _ w n h (Or.inr (List.mem_cons_self ..))
  rw [bind_of_ok (script_of_some hs)]
  refine Ends.bind (ends_attempt (ht n _ w h) fun e he => Or.inl he) fun result => ?_
  rcases result with e | _ | _
  · exact hlogs _ _ _ _
  · exact hlogs _ _ _ _
  · exact keeps_pure _

/-- A commit keeps what running and terminating its instances keep, and so does what is logged. -/
theorem keeps_commit {I : World → Prop}
    {c : Commit} (hlog : ∀ w j, I w → j.lives = w.journal.lives →
      I { w with journal := j })
    (hk : ∀ w n, I w → n ∈ c.toRun ∨ n ∈ c.toTerminate → ∃ s, w.script? n = some s)
    (hr : ∀ n ∈ c.toRun, Keeps I (fun _ => False) (run host n))
    (ht : ∀ n ∈ c.toTerminate, Keeps I Ordinary (terminate n)) : Keeps I E (commit host c) := by
  intro w h
  let J (left : Commit) (w : World) : Prop := I w ∧ left.toRun ⊆ c.toRun ∧
    left.toTerminate ⊆ c.toTerminate
  have hstages : Ends (J ⟨[], []⟩) E (commit host c w) := by
    refine ends_commit_stages (J := J) (fun left w j h hj => ⟨hlog w j h.1 hj, h.2⟩)
      (fun left w n h hn => ?_)
      (fun n toRun toTerminate w ⟨h, hrun, hend⟩ => ?_) (fun n toTerminate w ⟨h, hrun, hend⟩ => ?_)
      ⟨h, List.Subset.refl _, List.Subset.refl _⟩
    · exact hk w n h.1 (hn.imp (@h.2.1 n) (@h.2.2 n))
    · obtain ⟨hn, hrest⟩ := List.cons_subset.mp hrun
      exact (hr n hn w h).imp fun w' h' => ⟨h', hrest, hend⟩
    · obtain ⟨hn, hrest⟩ := List.cons_subset.mp hend
      exact (ht n hn w h).imp fun w' h' => ⟨h', hrun, hrest⟩
  exact hstages.imp fun w' h' => h'.1

/-- Stopping the watch concerns the watch alone. -/
theorem ends_stopWatch (ht : IsTame R w) : Ends (Tended w) Ordinary (stopWatch w) := by
  rw [stopWatch, get_bind]
  rcases hx : w.watch with _ | d | d
  · exact keeps_pure _ w (tended_refl w)
  · refine ends_scripted (tended_refl w) hx rfl fun e he => ?_
    exact ((ht.raises _ hx).stop e (ScriptedWatch.outcome_error he)).elim
      Failure.ordinary_of_isSystem id
  · exact ends_watching (tended_refl w) hx (DirectoryWatch.keeps_stop (ht.raises _ hx))

/-- A world whose scripted watch got an event. -/
def pushed (w : World) (s : ScriptedWatch) (path kind : String) : World :=
  { w with watch := some (.scripted { s with events := s.events ++ [(path, kind)] }) }

/-- An event is put into a scripted watch, and otherwise forgotten. -/
theorem keeps_pushEvent {I : World → Prop} {path kind : String}
    (hI : ∀ w s, I w → w.watch = some (.scripted s) → I (w.pushed s path kind)) :
    Keeps I E (pushEvent path kind) := by
  refine keeps_modify fun w h => ?_
  split
  · rename_i s hx
    exact hI w s h hx
  · exact h

theorem framed_pushed (w : World) (s : ScriptedWatch) (path kind : String) :
    Framed w (w.pushed s path kind) :=
  ⟨rfl, rfl⟩

theorem tame_pushed (h : IsTame R w) {s : ScriptedWatch} (hx : w.watch = some (.scripted s))
    {path : String} (hp : (Path.parse path).hasNull = false) (kind : String) :
    IsTame R (w.pushed s path kind) := by
  refine ⟨h.root, h.here, h.nodes, h.tree, fun x hm => ?_, fun x hm => ?_, h.refusal, h.resources⟩
  · cases hm
    have hr := h.raises _ hx
    refine ⟨hr.start, hr.poll, hr.rearm, hr.recreate, hr.stop,
      List.forall_mem_append.mpr ⟨hr.kinds, ?_⟩⟩
    exact List.forall_mem_singleton.mpr (Or.inr rfl)
  · cases hm
    exact List.forall_mem_append.mpr ⟨h.named _ hx, List.forall_mem_singleton.mpr hp⟩

/-- Whether the worlds of a kind are kept by what the host does apart from instances. -/
structure Abides (R : Regime) (I : World → Prop) : Prop where
  tame : ∀ {w}, I w → IsTame R w
  framed : ∀ {w w'}, I w → Framed w w' → IsTame R w' → I w'
  polling : ∀ {w}, I w → ∀ isPolling isStranded, I { w with isPolling, isStranded }
  watchPaths : ∀ {w paths}, I w → (∀ p ∈ paths, R.spells p) → I (watchPaths paths w).2
  unwatchPaths : ∀ {w paths}, I w → R.unwatches w paths → I (unwatchPaths paths w).2

/-- Claims of the operator fail ordinarily. -/
theorem ends_watchPaths (paths : List Path) (w : World) :
    Ends (· = (watchPaths paths w).2) Ordinary (watchPaths paths w) :=
  ⟨rfl, fun e he => ordinary_of_isClaimFailure
    ((keeps_watchPaths (I := fun _ => True) (fun _ _ _ _ => trivial) paths w trivial).2 e he)⟩

theorem ends_unwatchPaths (paths : List Path) (w : World) :
    Ends (· = (unwatchPaths paths w).2) Ordinary (unwatchPaths paths w) :=
  ⟨rfl, fun e he => ordinary_of_isClaimFailure
    ((keeps_unwatchPaths (I := fun _ => True) (fun _ _ _ _ => trivial) paths w trivial).2 e he)⟩

namespace Abides

variable {I : World → Prop} (hI : Abides R I)
include hI

theorem keeps_startPolling : Keeps I Ordinary startPolling := by
  refine keeps_get_bind fun w h => ?_
  have hpolling := hI.polling h true w.lacksThreads
  rw [set_bind]
  by_cases ht : w.lacksThreads = true
  · rw [if_pos ht]
    refine ends_error hpolling ?_
    rfl
  · rw [if_neg ht]
    exact ends_ok (hI.framed hpolling ⟨rfl, rfl⟩ ((hI.tame hpolling).transfer rfl rfl rfl rfl rfl))

theorem keeps_start : Keeps I Ordinary start := by
  refine keeps_get_bind fun w h => ?_
  by_cases ho : w.isClosed = true
  · rw [if_pos ho]
    refine keeps_throw ?_ w h
    rfl
  · rw [if_neg ho]
    by_cases hp : (!w.isPolling) = true
    · rw [if_pos hp]
      exact hI.keeps_startPolling w h
    · rw [if_neg hp]
      exact keeps_pure _ w h

/-- Whatever is asked for but cycles and a shutdown. -/
theorem keeps_answer {request : HostRequest} (hd : ¬request.Drives) (hp : R.Permits request)
    (hn : request.IsNamed) :
    Keeps I Ordinary (answer host request) := by
  cases request with
  | reconcile => exact absurd trivial hd
  | preload => exact absurd trivial hd
  | shutdown => exact absurd trivial hd
  | start => exact hI.keeps_start.bind fun _ => keeps_pure _
  | watch paths =>
    have hspelled := List.forall_mem_map.mpr (hp.watch paths rfl)
    exact Keeps.bind
      (fun w h => (ends_watchPaths _ w).imp fun _ hw => hw ▸ hI.watchPaths h hspelled) fun _ =>
      keeps_pure _
  | unwatch paths =>
    refine Keeps.bind (fun w h => (ends_unwatchPaths _ w).imp fun _ hw => ?_) fun _ => keeps_pure _
    exact hw ▸ hI.unwatchPaths h (hp.unwatch w paths rfl)
  | event path kind =>
    refine Keeps.bind (keeps_pushEvent fun w s h hx => ?_) fun _ => keeps_pure _
    exact hI.framed h (framed_pushed w s path kind) (tame_pushed (hI.tame h) hx hn kind)

theorem keeps_hostAt {request : HostRequest} (hd : ¬request.Drives) (ha : R.asks request)
    (hn : request.IsNamed) (depth : Nat) : Keeps I Ordinary (hostAt depth request) := by
  cases depth with
  | zero =>
    refine keeps_throw ?_
    rfl
  | succ depth => exact hI.keeps_answer hd (R.permits ha) hn

end Abides

/-- What cycles and entries of the log keep, preloading keeps. -/
theorem keeps_preloading {I : World → Prop}
    (hlog : ∀ component level event fields, Keeps I E (log component level event fields))
    (hcycles : ∀ left, Keeps I E (preloadCycles host left 0)) : Keeps I E (preload host) := by
  refine keeps_get_bind fun w h => (hcycles _).bind (fun result => ?_) w h
  have hcomplete (cycles : Nat) : Keeps I E (do
      log "Reconciler" .info "preload_complete"
        [("cycles", .int cycles), ("scripts", .int (← get).registry.length)]
      return cycles) :=
    keeps_get_bind fun w h => (hlog _ _ _ _).bind (fun _ => keeps_pure _) w h
  rcases result with ⟨cycles, _ | _⟩
  · exact (hlog _ _ _ _).bind fun _ => hcomplete cycles
  · exact hcomplete cycles

/-- A world whose poll loop has ended. -/
def idled (w : World) : World := { w with isPolling := false, isStranded := false }

theorem stopPolling_of_none (h : w.joinFault? = none) : stopPolling w = (.ok (), w.idled) := by
  rw [stopPolling, get_bind, set_bind, h]
  rfl

theorem stopPolling_of_some {fault : Failure} (h : w.joinFault? = some fault) :
    stopPolling w = (.error fault, w.idled) := by
  rw [stopPolling, get_bind, set_bind, h]
  rfl

theorem ordinary_joinFault {fault : Failure} (h : w.joinFault? = some fault) : Ordinary fault := by
  unfold joinFault? at h
  split at h
  · cases h
  · split at h
    · cases h
      rfl
    · split at h
      · cases h
        rfl
      · cases h

/-- A pool is waited for, and no other executor. -/
theorem closePool_of_not_pool (hx : ∀ isClosed, w.executor ≠ .pool isClosed) :
    closePool host w = (.ok (), w) := by
  rw [closePool, get_bind]
  rcases h : w.executor with _ | _ | _ | isClosed | _
  case pool => exact absurd h (hx isClosed)
  all_goals rfl

namespace Sustains

variable {J : List Duty → World → Prop} (hJ : Sustains R J)
include hJ

theorem abides : Abides R (J K) where
  tame := hJ.tame
  framed h hf ht := hJ.calm h hf.unseen ht
  polling h _ _ := hJ.calm h ⟨rfl, rfl⟩ ((hJ.tame h).transfer rfl rfl rfl rfl rfl)
  watchPaths := hJ.watchPaths
  unwatchPaths := hJ.unwatchPaths

theorem journal (h : J K w) {j : Journal} (hj : j.lives = w.journal.lives) :
    J K { w with journal := j } :=
  hJ.calm h ⟨rfl, hj⟩ ((hJ.tame h).transfer rfl rfl rfl rfl rfl)

theorem keeps_log (component : String) (level : LogLevel) (event : String)
    (fields : List (String × Value)) :
    Keeps (J K) E (log component level event fields) :=
  keeps_modify fun _ h => hJ.journal h rfl

/-! Commits. -/

/-- There are the instances that a commit is about. -/
theorem script_of_commit {c : Commit} (h : J (.commit c :: K) w) {n : Nat}
    (hn : n ∈ c.toRun ∨ n ∈ c.toTerminate) :
    ∃ s, w.script? n = some s := by
  have hmem : n ∈ Duty.numbers (.commit c) := List.mem_append.mpr hn
  exact ⟨_,
    List.getElem?_eq_getElem ((hJ.sane h).known n (Moment.mem_numbers_cons.mpr (Or.inl hmem)))⟩

/-- The first instances of a commit are run, and that raises nothing. -/
theorem ends_toRun (hr : Runs J host) {first rest toTerminate : List Nat}
    (h : J (.commit ⟨first ++ rest, toTerminate⟩ :: K) w) :
    Ends (J (.commit ⟨rest, toTerminate⟩ :: K)) E (commit host ⟨first, []⟩ w) := by
  let I (left : Commit) (w : World) : Prop :=
    left.toTerminate = [] ∧ J (.commit ⟨left.toRun ++ rest, toTerminate⟩ :: K) w
  have hstages : Ends (I ⟨[], []⟩) E (commit host ⟨first, []⟩ w) := by
    refine ends_commit_stages (J := I) (fun left w j h hj => ⟨h.1, hJ.journal h.2 hj⟩)
      (fun left w n h hn => ?_)
      (fun n toRun left w h => ?_) (fun n left w h => (List.cons_ne_nil _ _ h.1).elim) ⟨rfl, h⟩
    · obtain ⟨hnone, hleft⟩ := h
      rw [hnone] at hn
      exact hJ.script_of_commit hleft
        (Or.inl (List.mem_append_left _ (hn.resolve_right List.not_mem_nil)))
    · exact (hr n _ _ _ w h.2).imp fun w' h' => ⟨h.1, h'⟩
  exact hstages.imp fun w' h' => h'.2

/-- Once nothing is left to run, the terminations of the first instances are begun. -/
theorem ends_toTerminate {first rest : List Nat} (h : J (.commit ⟨[], first ++ rest⟩ :: K) w) :
    Ends (J (.commit ⟨[], rest⟩ :: K)) E (commit host ⟨[], first⟩ w) := by
  let I (left : Commit) (w : World) : Prop :=
    left.toRun = [] ∧ J (.commit ⟨[], left.toTerminate ++ rest⟩ :: K) w
  have hstages : Ends (I ⟨[], []⟩) E (commit host ⟨[], first⟩ w) := by
    refine ends_commit_stages (J := I) (fun left w j h hj => ⟨h.1, hJ.journal h.2 hj⟩)
      (fun left w n h hn => ?_)
      (fun n toRun left w h => (List.cons_ne_nil _ _ h.1).elim) (fun n left w h => ?_) ⟨rfl, h⟩
    · obtain ⟨hnone, hleft⟩ := h
      rw [hnone] at hn
      exact hJ.script_of_commit hleft
        (Or.inr (List.mem_append_left _ (hn.resolve_left List.not_mem_nil)))
    · exact (hJ.terminate h.2).imp fun w' h' => ⟨rfl, h'.1⟩
  exact hstages.imp fun w' h' => h'.2

/-- A commit is carried out to its end, and raises nothing. -/
theorem ends_commit (hr : Runs J host) {c : Commit} (h : J (.commit c :: K) w) :
    Ends (J K) E (commit host c w) := by
  rw [commit_eq]
  have hall : J (.commit ⟨c.toRun ++ [], c.toTerminate ++ []⟩ :: K) w := by
    rwa [List.append_nil, List.append_nil]
  refine (hJ.ends_toRun hr hall).andThen fun _ w₁ h₁ => ?_
  exact (hJ.ends_toTerminate h₁).imp fun w h => hJ.done h

/-! Cycles. -/

theorem dropEmpty {c : Commit} (h : J (.commit c :: K) w) (hc : c.toRun = [] ∧ c.toTerminate = []) :
    J K w := by
  obtain ⟨toRun, toTerminate⟩ := c
  obtain ⟨rfl, rfl⟩ := hc
  exact hJ.done h

/-- A cycle leaves a commit to be done, or raises what keeps it from having a plan. -/
theorem cycle_cases (h : J K w) (ho : w.isClosed = false) :
    (∃ done w', cycle w = (.ok done, w') ∧ J (.commit done.commit :: K) w') ∨
      ∃ e w', cycle w = (.error e, w') ∧ Ordinary e ∧ J K w' := by
  have htame := hJ.tame h
  have hn := htame.isNullFree (hJ.sane h).named
  rcases planCycle_cases htame.raisesAll with ⟨w₁, hp, ht, -⟩ | ⟨e, w₁, hp, hcase⟩
  · obtain ⟨w', hc, hm⟩ := cycle_of_planCycle (hJ.sane h).registered hn hp ht
    refine Or.inl ⟨_, w', hc, ?_⟩
    have hcommit : (Applied.extend { plan := w.plan } (w.reloads w.plan) w.plan.toLoad
        (w.plan.toUnload.map (·.1)) (w.commitOf w.plan)).commit = w.commitOf w.plan := by
      simp only [Applied.extend, List.nil_append]
    rw [hcommit]
    exact hJ.plan h ho ht (fits_plan (hJ.sane h).registered hn) hm
      ((htame.polled.tended ht).remade hm)
  · refine Or.inr ⟨e, w₁, bind_of_error hp _, ?_⟩
    rcases hcase with ⟨-, he, ht⟩ | ⟨he, ht | ht⟩
    · exact ⟨Failure.ordinary_of_isSystem he, hJ.calm h ht.toFramed.unseen (htame.tended ht)⟩
    · exact ⟨he, hJ.calm h ht.toFramed.unseen (htame.tended ht)⟩
    · exact ⟨he, hJ.calm h ((framed_polled w).trans ht.toFramed).unseen (htame.polled.tended ht)⟩

/-- What a cycle that has got a commit does with it keeps what is kept. -/
theorem reconcile_of_cycle (hr : Runs J host) {done : Applied} (h : J (.commit done.commit :: K) w')
    (ho : w.isClosed = false) (hc : cycle w = (.ok done, w')) :
    ∃ w₁, reconcile host w = (.ok done.plan, w₁) ∧ J K w₁ := by
  apply reconcile_cases ho hc (hJ.tame h).refusal
  · exact hJ.ends_commit hr h
  · exact hJ.enqueue h
  · exact fun entry => hJ.ends_commit hr (hJ.refuse (hJ.journal h rfl))
  · exact hJ.dropEmpty h

theorem keeps_reconcile (hr : Runs J host) : Keeps (J K) Ordinary (reconcile host) := by
  intro w h
  by_cases ho : w.isClosed = true
  · rw [reconcile, get_bind, if_pos ho]
    exact keeps_pure _ w h
  · rcases hJ.cycle_cases h (Bool.eq_false_iff.mpr ho) with ⟨done, w', hc, h'⟩ | ⟨e, w', hc, he, h'⟩
    · obtain ⟨w₁, hw₁, h₁⟩ := hJ.reconcile_of_cycle hr h' (Bool.eq_false_iff.mpr ho) hc
      rw [hw₁]
      exact ends_ok h₁
    · rw [reconcile, get_bind, if_neg ho, bind_of_error hc]
      exact ends_error h' he

theorem keeps_preloadCycles (hr : Runs J host) (left cycles : Nat) :
    Keeps (J K) Ordinary (preloadCycles host left cycles) := by
  induction left generalizing cycles with
  | zero => exact keeps_pure _
  | succ left ih =>
    refine keeps_get_bind fun w h => ?_
    by_cases ho : w.isClosed = true
    · rw [if_pos ho]
      exact keeps_pure _ w h
    · rw [if_neg ho, get_bind]
      rcases hJ.cycle_cases h (Bool.eq_false_iff.mpr ho) with ⟨done, w', hc, h'⟩ | ⟨e, w',
        hc, he, h'⟩
      · rw [bind_of_ok hc]
        refine (hJ.ends_commit hr h').bind fun _ => keeps_get_bind fun w₂ h₂ => ?_
        by_cases hs : w₂.watched.length = w.watched.length
        · rw [if_pos hs]
          exact keeps_pure _ w₂ h₂
        · rw [if_neg hs]
          exact ih _ w₂ h₂
      · rw [bind_of_error hc]
        exact ends_error h' he

/-! The poll loop and queued commits. -/

theorem keeps_pollRound (hr : Runs J host) : Keeps (J K) E (pollRound host) := by
  refine Keeps.bind (keeps_attempt (hJ.keeps_reconcile hr) fun e he => Or.inl he) fun result => ?_
  cases result with
  | ok _ => exact keeps_pure _
  | error e => exact hJ.keeps_log _ _ _ _

theorem keeps_thread (name : String) :
    Keeps (J K) E (modify fun w => { w with thread := name } : Act Unit) :=
  keeps_modify fun _ h => hJ.calm h ⟨rfl, rfl⟩ ((hJ.tame h).transfer rfl rfl rfl rfl rfl)

theorem ends_runPooled (hr : Runs J host) {c : Commit} (h : J (.commit c :: K) w) :
    Ends (J K) E (runPooled host c w) := by
  rw [runPooled, get_bind]
  refine (hJ.keeps_thread _ w h).andThen fun _ w₁ h₁ => ?_
  have hc : Ends (J K) (fun _ => False) (World.attempt (fun _ => true) (commit host c) w₁) :=
    ends_attempt (hJ.ends_commit (E := fun _ => False) hr h₁) fun e he => he.elim
  exact hc.andThen fun _ w₂ h₂ => hJ.keeps_thread _ w₂ h₂

theorem ends_runLooped (hr : Runs J host) {c : Commit} (h : J (.commit c :: K) w) :
    Ends (J K) E (runLooped host c w) :=
  Ends.bind (ends_attempt (hJ.ends_commit (E := fun _ => False) hr h) fun _ he => he.elim) fun _ =>
    keeps_pure _

/-- Waiting commits are carried out in order, if each one is. -/
theorem keeps_drainWith {runTask : Commit → Act Unit}
    (ht : ∀ c w, J (.commit c :: K) w → Ends (J K) E (runTask c w)) (fuel : Nat) :
    Keeps (J K) E (drainWith runTask fuel) := by
  induction fuel with
  | zero => exact keeps_pure _
  | succ fuel ih =>
    refine keeps_get_bind fun w h => ?_
    cases htasks : w.tasks with
    | nil => exact keeps_pure _ w h
    | cons c rest =>
      have hd := hJ.dequeue 0 h (show w.tasks[0]? = some c by rw [htasks]; rfl)
      rw [htasks] at hd
      dsimp only
      rw [set_bind]
      exact Ends.bind (ht c _ hd) fun _ => ih

/-! Shutting down. -/

theorem keeps_closePool (hr : Runs J host) : Keeps (J K) Ordinary (closePool host) := by
  refine keeps_get_bind fun w h => ?_
  rcases hx : w.executor with _ | _ | _ | isClosed | isClosed
  · exact keeps_pure _ w h
  · exact keeps_pure _ w h
  · exact keeps_pure _ w h
  · refine Keeps.bind (keeps_modify fun w h => ?_) (fun _ => keeps_get_bind fun w h => ?_) w h
    · have htame := hJ.tame h
      have hpool : J K { w with executor := .pool true } :=
        hJ.calm h ⟨rfl, rfl⟩ ⟨htame.root, htame.here, htame.nodes,
        htame.tree, htame.raises, htame.named, fun _ he => Executor.noConfusion he, htame.resources⟩
      exact hpool
    · by_cases ht : w.thread = w.poolThread
      · rw [if_pos ht]
        refine ends_error h ?_
        rfl
      · rw [if_neg ht]
        exact keeps_get_bind
          (fun w h => hJ.keeps_drainWith (fun _ _ h => hJ.ends_runPooled hr h) _ w h) w h
  · exact keeps_pure _ w h

/-- A host that closes terminates what is registered. -/
theorem ends_terminateAll (hR : R.closes) (h : J K w) (ho : w.isClosed = false) :
    Ends (fun w' => J K w' ∧ w'.isClosed = true) E (terminateAll { w with isClosed := true }) := by
  rw [terminateAll, get_bind, set_bind]
  refine Ends.imp (Ends.foldlM (J := fun entries w' =>
      J (.commit ⟨[], entries.map (·.2)⟩ :: K) w' ∧ w'.isClosed = true)
    (fun failures entry rest w' h' => ?_) ⟨hJ.close h hR ho, rfl⟩ 0) fun w' h' =>
      ⟨hJ.done h'.1, h'.2⟩
  have hend : Ends (fun w'' => J (.commit ⟨[], rest.map (·.2)⟩ :: K) w'' ∧ w''.isClosed = true)
      Ordinary (World.terminate entry.2 w') :=
    (hJ.terminate h'.1).imp fun _ h'' => ⟨h''.1, h''.2 h'.2⟩
  refine Ends.bind (ends_attempt hend fun _ he => Or.inl he) fun result => ?_
  rcases result with e | _ | _
  · exact Keeps.bind (keeps_modify fun _ h'' => ⟨hJ.journal h''.1 rfl, h''.2⟩) fun _ => keeps_pure _
  · exact keeps_pure _
  · exact keeps_pure _

/-- A host that was closed forgets its claims and stops its watch. -/
theorem ends_finishShutdown (hR : R.closes) (count failures : Nat) (h : J K w)
    (hc : w.isClosed = true) :
    Ends (fun w' => J K w' ∧ w'.isClosed = true) Ordinary ((do
      modify fun w => { w with claims := [] }
      stopWatch
      log "Reconciler" .info "reconciler_shutdown"
        [("terminated", .int count), ("failures", .int failures)] : Act Unit) w) := by
  have hclear := hJ.clear h hR hc
  rw [modify_bind]
  refine Ends.bind ((ends_stopWatch (hJ.tame hclear)).imp fun w' ht => ?_) fun _ =>
    keeps_modify fun _ h' => ⟨hJ.journal h'.1 rfl, h'.2⟩
  have hunseen := ht.toFramed.unseen
  exact ⟨hJ.calm hclear hunseen ((hJ.tame hclear).tended ht), hunseen.calm.still.isClosed.trans hc⟩

/-- A host that has waited for its pool closes, whatever stopping the watch raises. -/
theorem ends_closing (hR : R.closes) (h : J K w) :
    Ends (fun w' => J K w' ∧ w'.isClosed = true) Ordinary ((do
      if !(← get).isClosed then
        modify fun w => { w with isClosed := true }
        let count := (← get).registry.length
        let failures ← terminateAll
        modify fun w => { w with claims := [] }
        stopWatch
        log "Reconciler" .info "reconciler_shutdown"
          [("terminated", .int count), ("failures", .int failures)] : Act Unit) w) := by
  rw [get_bind]
  by_cases ho : (!w.isClosed) = true
  · rw [if_pos ho, modify_bind, get_bind]
    have hopen : w.isClosed = false := by simpa using ho
    exact (hJ.ends_terminateAll (E := fun _ => False) hR h hopen).andThen fun failures w' h' =>
      hJ.ends_finishShutdown hR w.registry.length failures h'.1 h'.2
  · rw [if_neg ho]
    have hclosed : w.isClosed = true := by simpa using ho
    exact ends_ok ⟨h, hclosed⟩

theorem idle (h : J K w) : J K w.idled :=
  hJ.calm h ⟨rfl, rfl⟩ ((hJ.tame h).transfer rfl rfl rfl rfl rfl)

/-- A host that was shut down without a failure is closed. -/
theorem shutdown_cases (hr : Runs J host) (hR : R.closes) (h : J K w) :
    Ends (J K) Ordinary (shutdown host w) ∧
      ∀ x, (shutdown host w).1 = .ok x → (shutdown host w).2.isClosed = true := by
  have hpool := hJ.keeps_closePool hr _ (hJ.idle h)
  rw [shutdown]
  rcases hj : w.joinFault? with _ | fault
  · rw [bind_of_ok (stopPolling_of_none hj)]
    rcases hp : closePool host w.idled with ⟨e | u, w₁⟩ <;> rw [hp] at hpool
    · rw [bind_of_error hp]
      exact ⟨ends_error hpool.1 (hpool.2 e rfl), fun x hx => by cases hx⟩
    · rw [bind_of_ok hp]
      have hends := hJ.ends_closing hR hpool.1
      exact ⟨hends.imp fun _ h => h.1, fun _ _ => hends.1.2⟩
  · rw [bind_of_error (stopPolling_of_some hj)]
    exact ⟨ends_error (hJ.idle h) (ordinary_joinFault hj), fun x hx => by cases hx⟩

/-- Unless it waits for a pool, or waiting for the poll loop fails, a shutdown leaves the host
closed, whatever it raises. -/
theorem ends_shutdown (hR : R.closes) (hj : w.joinFault? = none)
    (hx : ∀ isClosed, w.executor ≠ .pool isClosed) (h : J K w) :
    Ends (fun w' => J K w' ∧ w'.isClosed = true) Ordinary (shutdown host w) := by
  rw [shutdown, bind_of_ok (stopPolling_of_none hj),
    bind_of_ok (closePool_of_not_pool (w := w.idled) hx)]
  exact hJ.ends_closing hR (hJ.idle h)

/-! The host as scripts see it. -/

/-- The host answers what is permitted, whoever asks. -/
theorem keeps_permitted (hr : Runs J host) {request : HostRequest} (hp : R.Permits request)
    (hn : request.IsNamed) :
    Keeps (J K) Ordinary (answer host request) := by
  cases request with
  | reconcile => exact (hJ.keeps_reconcile hr).bind fun _ => keeps_pure _
  | preload =>
    refine Keeps.bind ?_ fun _ => keeps_pure _
    exact keeps_preloading hJ.keeps_log fun left => hJ.keeps_preloadCycles hr left 0
  | shutdown =>
    exact Keeps.bind (fun w h => (hJ.shutdown_cases hr (hp.shutdown rfl) h).1) fun _ => keeps_pure _
  | _ => exact hJ.abides.keeps_answer id hp hn

theorem keeps_answer (hr : Runs J host) : Answers R J (answer host) :=
  fun _ _ ha hn => hJ.keeps_permitted hr (R.permits ha) hn

/-- The host keeps what is kept, however deep the requests of its scripts are nested. -/
theorem keeps_hostAt (hr : ∀ depth, Answers R J (hostAt depth) → Runs J (hostAt depth))
    (depth : Nat) :
    Answers R J (hostAt depth) := by
  induction depth with
  | zero =>
    intro K request _ _
    refine keeps_throw ?_
    rfl
  | succ depth ih => exact hJ.keeps_answer (hr depth ih)

end Sustains

end World

end HotReload
