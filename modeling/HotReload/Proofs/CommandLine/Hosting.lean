import HotReload.CommandLine.Run
import HotReload.Proofs.Host.Draining
import HotReload.Proofs.Host.Namespaces
import HotReload.Proofs.Operator.Lifespan

/-!
# Cleaning up after a run

A run that hosts scripts shuts its host down however it ends: after a preload or a start that raised
something, and after any rounds of the poll loop and commits of the pool. Then nothing of the host
is left, as long as the bodies, the closings and the observers raise nothing that ends a program,
what closings raise has a literal, and the end of the poll loop can be waited for. Where it cannot,
the shutdown ends at once and leaves everything as it is. The thread of the pool is taken to start
when it is asked to.
-/
namespace HotReload.CommandLine

open World Operation

/-- Whether what bodies, closings and observers raise is handled, what closings raise has a literal,
and no null character stands in the working directory or behind a link. A run gives its scripts no
access to the host, so that they ask nothing of it. -/
structure Surroundings.IsHandled (s : Surroundings) : Prop where
  here : s.files.here.hasNull = false
  nodes : s.files.Holds (FileNode.IsTame Regime.thorough.silent)
  observers : s.observers.Raises Ordinary

/-- Whether files, clocks and what is reported changed, while the observers, the poll loop and the
thread that waits stayed. -/
structure Passes (w w' : World) : Prop extends Operator.Drifts w w' where
  thread : w'.thread = w.thread
  isStranded : w'.isStranded = w.isStranded

/-- How the world of a run has come from one to another while the run waited: the poll loop made its
rounds, and the pool carried out the first of what waited. -/
inductive Waits (w₀ : World) : World → Prop where
  | refl : Waits w₀ w₀
  | round {w : World} (h : Waits w₀ w) : Waits w₀ (pollRound World.host w).2
  | task {w : World} {c : Commit} {rest : List Commit} (h : Waits w₀ w) (hc : w.tasks = c :: rest) :
      Waits w₀ (runPooled World.host c { w with tasks := rest }).2
  | outside {w w' : World} (h : Waits w₀ w) (hp : Passes w w')
    (ht : IsTame Regime.thorough.silent w') : Waits w₀ w'

/-- Whether nothing of a host is left: it is closed, nothing waits, is claimed or registered, every
instance is terminated and has released its context if it was started, the engine keeps nothing, and
every observer that was started was told to stop. -/
structure IsCleanedUp (w : World) : Prop extends IsClosedDown w where
  registry : w.registry = []
  watched : w.watched = []
  terminated : ∀ n s, w.script? n = some s → s.state = .terminated ∧ s.resources.IsSealed
  released : ∀ n s, w.script? n = some s → w.journal.life n = s.milestones true
  namespaces : w.engine.namespaces = []
  latest : ∀ p, Registry.get? w.engine.latest p = none
  watch : ∀ d, w.watch = some (.directory d) → d.current = none ∧
    ∀ o ∈ d.observers, o.isStarted = true → o.isStopped = true

/-- Whether a host that has not done anything is about to be served. -/
structure IsPrepared (w : World) : Prop extends IsNew w, IsManned w where
  tame : IsTame Regime.thorough.silent w
  engine : w.engine = {}
  observers : ∀ d, w.watch = some (.directory d) → d.current = none ∧ d.observers = []

/-- How a host may have come from one world to another while a run serves it. -/
structure Hosted (w₀ w : World) : Prop where
  history : QuietHistory .thorough w₀ w
  tidy : IsTidy (fun _ => True) .between w
  manned : IsManned w

variable {w₀ w w' : World} {E : Failure → Prop}

theorem tidies : Weathers (IsTidy fun _ => True) := IsTidy.weathers fun _ h => h

/-- What a run has its host do belongs to a history, as what the host is asked for does. -/
theorem history_answering {α : Type} {act : Act α} {f : α → HostAnswer}
    (h : QuietHistory .thorough w₀ w) (request : HostRequest) (hn : request.IsNamed)
    (ha : answer World.host request = do return f (← act)) :
    QuietHistory .thorough w₀ (act w).2 := by
  rw [← snd_bind_pure act f, ← ha]
  exact h.request (depthLimit + 1) request (Regime.thorough.permits trivial) hn

theorem Passes.isManned (h : Passes w w') (hm : IsManned w) : IsManned w' := by
  have hclosed : w'.isClosed = w.isClosed := by rw [h.frame]
  have hpool : w'.poolThread = w.poolThread := by rw [h.frame]
  have hthreads : w'.lacksThreads = w.lacksThreads := by rw [h.frame]
  have hinterval : w'.pollIntervalMs = w.pollIntervalMs := by rw [h.frame]
  exact
    { threads := hthreads.trans hm.threads
      stranded := h.isStranded.trans hm.stranded
      interval := hinterval ▸ hm.interval
      isOpen := hclosed.trans hm.isOpen
      executor := h.executor.trans hm.executor
      caller := by
        rw [h.thread, hpool]
        exact hm.caller }

/-! What a run does before it shuts its host down. -/

section Serving

variable (hw : IsPrepared w₀)
include hw

theorem Hosted.new : Hosted w₀ w₀ :=
  ⟨.refl, .new (R := Regime.thorough.silent) id hw.tame hw.scripts trivial hw.observers,
    hw.toIsManned⟩

theorem Hosted.reached (h : Hosted w₀ w) : Reached Regime.thorough.silent ⟨w₀, []⟩ [] w :=
  (chronicled h.history ⟨.refl, hw.isSane, hw.tame⟩).1

namespace Hosted

omit hw in
theorem watchPaths (h : Hosted w₀ w) (paths : List String) :
    Hosted w₀ (World.watchPaths (paths.map Path.parse) w).2 := by
  have hoperated := operated_watchPaths (paths.map Path.parse) w
  refine ⟨history_answering h.history (.watch paths) trivial rfl, h.tidy.beside ⟨?_⟩, ?_⟩
  · rw [hoperated]
  · rw [hoperated]
    exact { h.manned with }

theorem keeps_preload : Keeps (Hosted w₀) anything (preload World.host) := by
  intro w h
  have hhistory := history_answering h.history .preload trivial rfl
  have htidy := tidies.keeps_preload (tidies.keeps_hostAt depthLimit) w h.tidy
  have hmanned := IsManned.keeps_preload depthLimit w ⟨h.reached hw, h.manned⟩
  exact ⟨⟨hhistory, htidy.1, hmanned.1.2⟩, fun _ _ => trivial⟩

omit hw in
theorem keeps_start : Keeps (Hosted w₀) anything start := by
  intro w h
  have hhistory := history_answering h.history .start trivial rfl
  exact ⟨⟨hhistory, (tidies.keeps_start w h.tidy).1, (IsManned.keeps_start w h.manned).1⟩,
    fun _ _ => trivial⟩

theorem keeps_enter (entry : LogEntry) : Keeps (Hosted w₀) E (enter entry) := by
  refine keeps_modify fun w h => ⟨.outside h.history ⟨rfl, rfl⟩ ?_, h.tidy.beside ⟨rfl⟩, ?_⟩
  · exact (h.reached hw).tame.transfer rfl rfl rfl rfl rfl
  · exact { h.manned with }

end Hosted

/-- Whatever goes on while a run waits, its host stays as a run may serve it. -/
theorem Waits.hosted (h : Waits w w') (hhosted : Hosted w₀ w) : Hosted w₀ w' := by
  have hhost := tidies.keeps_hostAt depthLimit
  induction h with
  | refl => exact hhosted
  | round _ ih =>
    have htidy := tidies.keeps_pollRound hhost _ ih.tidy
    exact ⟨.poll depthLimit ih.history, htidy.1, (IsManned.keeps_pollRound _ ih.manned).1⟩
  | @task w c rest _ hc ih =>
    have hfirst : w.tasks[0]? = some c := by rw [hc]; rfl
    have hcarry := ih.history.carry .pool depthLimit 0 hfirst
    have hdequeue := (Reached.sustains _ _).dequeue 0 (ih.reached hw) hfirst
    rw [hc] at hcarry hdequeue
    have htidy := tidies.keeps_runPooled hhost c { w with tasks := rest } (ih.tidy.beside ⟨rfl⟩)
    have hsteady := (Steady.ends_runPooled (E := anything) depthLimit hdequeue).1.2
    exact ⟨hcarry, htidy.1, hsteady.isManned { ih.manned with }⟩
  | outside _ hp ht ih =>
    exact ⟨.outside ih.history hp.toCalm ht, hp.isTidy (R := Regime.thorough.silent) id ht ih.tidy,
    hp.isManned ih.manned⟩

/-! The end of a run. -/

/-- A closed host of which nothing waits is cleaned up. -/
theorem isCleanedUp_of_closedDown (h : QuietHistory .thorough w₀ w)
    (htidy : IsTidy (fun _ => True) .between w) (hdown : IsClosedDown w) : IsCleanedUp w := by
  obtain ⟨hreached, told, htold⟩ := chronicled h ⟨.refl, hw.isSane, hw.tame⟩
  have hkept := (htold.recounts id hw.toIsNew hw.engine hw.tame).kept
  have horderly := Walk.isOrderly hreached.walk hw.isSane hw.isOrderly
  have hregistry := horderly.closed hdown.isClosed
  have hrest {n : Nat} {s : Script} (hs : w.script? n = some s) :=
    horderly.atRest hreached.sane.registered hs
  have hover {n : Nat} {s : Script} (hs : w.script? n = some s) : s.state = .terminated :=
    (hrest hs).terminated id hregistry hdown.tasks
  have hgone : ∀ e ∈ told, w.isGone e.script = true := fun e he => by
    obtain ⟨s, hs, -⟩ := hkept.past e he
    rw [isGone, hs]
    exact decide_eq_true (hover hs)
  refine { hdown with
    registry := hregistry, watched := ?_
    terminated := fun n s hs => ?_, released := fun n s hs => ?_
    namespaces := ?_, latest := fun p => ?_, watch := fun d hd => ?_ }
  · rw [World.watched, hdown.claims]
    rfl
  · exact ⟨hover hs, htidy.sealed s (List.mem_of_getElem? hs) (hover hs)⟩
  · rw [(hrest hs).life, decide_eq_true (hover hs)]
  · rw [hkept.namespaces, List.filterMap_eq_nil_iff.mpr fun e he => ?_]
    · rfl
    · rw [variables?, if_pos (hgone e he)]
  · rw [hkept.latest, Option.bind_eq_none_iff]
    exact fun e he => if_pos (hgone e (List.mem_of_find?_eq_some he))
  · exact (htidy.quiet rfl hdown.isClosed d hd).stopped

/-- A shutdown cleans up, whatever stopping the watch raises. -/
theorem Hosted.ends_shutdown (h : Hosted w₀ w) :
    Ends IsCleanedUp Ordinary (shutdown World.host w) := by
  have hdown := h.manned.ends_shutdown depthLimit (h.reached hw) trivial
  have hhistory := history_answering h.history .shutdown trivial rfl
  have htidy := tidies.keeps_shutdown (tidies.keeps_hostAt depthLimit) w h.tidy
  exact ⟨isCleanedUp_of_closedDown hw hhistory htidy.1 hdown.1.2, hdown.2⟩

theorem Hosted.keeps_serveScripts {waiting : Act Unit}
    (hwait : ∀ w, IsTame Regime.thorough.silent w → Waits w (waiting w).2) (directory : Path)
    (args : Arguments) :
    Keeps (Hosted w₀) anything (serveScripts waiting directory args) := by
  have hwaiting : Keeps (Hosted w₀) anything waiting := fun w h =>
    ⟨(hwait w (h.reached hw).tame).hosted hw h, fun _ _ => trivial⟩
  have hstarting (entry : World → LogEntry) : Keeps (Hosted w₀) anything (do
      World.start
      World.enter (entry (← get))
      waiting) :=
    keeps_start.bind fun _ =>
      keeps_get_bind fun w h => ((keeps_enter hw _).bind fun _ => hwaiting) w h
  rw [serveScripts]
  split
  · exact (keeps_preload hw).bind fun _ => hstarting _
  · exact hstarting _

/-- However serving the scripts ends, the host is shut down. -/
theorem ends_hostScripts {waiting : Act Unit}
    (hwait : ∀ w, IsTame Regime.thorough.silent w → Waits w (waiting w).2) (directory : Path)
    (initScript : String) (args : Arguments) {w₁ : World}
    (hwatch : World.watchPaths ((initScript :: args.watched).map Path.parse) w₀ = (.ok (), w₁)) :
    Ends IsCleanedUp anything (hostScripts waiting directory initScript args w₀) := by
  have hattempt : Keeps (Hosted w₀) (fun _ => False)
      (World.attempt (fun _ => true) (serveScripts waiting directory args)) := fun w h =>
    World.ends_attempt (Hosted.keeps_serveScripts hw hwait directory args w h) fun _ _ => Or.inl rfl
  have hwatched : Hosted w₀ w₁ := by
    have h := Hosted.watchPaths (.new hw) (initScript :: args.watched)
    rwa [hwatch] at h
  rw [hostScripts, bind_of_ok hwatch]
  refine (hattempt w₁ hwatched).andThen fun result w h => ?_
  rw [get_bind]
  have hshut : Ends IsCleanedUp anything (shutdown World.host w) :=
    ⟨(h.ends_shutdown hw).1, fun _ _ => trivial⟩
  exact hshut.bind fun _ => (keeps_any result).bind fun _ => keeps_pure _

end Serving

/-! Runs. -/

/-- The pool's thread has a name that no other thread has. -/
theorem caller_ne_poolThread (name : String) : "MainThread" ≠ name ++ "_0" := by
  intro h
  have hlast := congrArg (fun text : String => text.toList.getLast?) h
  simp at hlast

theorem Surroundings.IsHandled.isPrepared {s : Surroundings} {args : Arguments} (hs : s.IsHandled)
    (hd : s.files.isDirectory (s.directory args) = .ok true) (hj : (s.world args).IsJoinable) :
    IsPrepared (s.world args) where
  toIsNew := ⟨rfl, rfl, rfl, rfl, rfl, rfl⟩
  toIsManned := ⟨hj, rfl, rfl, caller_ne_poolThread _⟩
  tame :=
    { root := FileTree.hasNull_of_isDirectory hd
      here := hs.here
      nodes := hs.nodes
      tree := trivial
      raises := fun x hx => by
        obtain ⟨y, hy, rfl⟩ := Option.map_eq_some_iff.mp hx
        simp only [World.create] at hy
        split at hy
        · cases hy
          exact hs.observers
        · cases hy
      named := fun x hx => by
        obtain ⟨y, hy, rfl⟩ := Option.map_eq_some_iff.mp hx
        simp only [World.create] at hy
        split at hy
        · cases hy
          exact List.forall_mem_nil _
        · cases hy
      refusal := fun _ he => Executor.noConfusion he
      resources := List.forall_mem_nil _ }
  engine := rfl
  observers d hd := by
    obtain ⟨y, hy, hbehaving⟩ := Option.map_eq_some_iff.mp hd
    simp only [World.create] at hy
    split at hy
    · cases hy
      cases hbehaving
      exact ⟨rfl, rfl⟩
    · cases hy

/-- What becomes of the host of a run that may wait in a certain way. -/
structure CleansUp (s : Surroundings) (args : Arguments) (waiting : Act Unit) : Prop where
  /-- Where the paths cannot be watched, the run ends with that before anything is made. -/
  unwatched : ∀ e w,
    watchPaths ((s.initScript args :: args.watched).map Path.parse) (s.world args) = (.error e, w) →
    hostScripts waiting (s.directory args) (s.initScript args) args (s.world args) = (.error e, w) ∧
      Operated (s.world args) w
  /-- Else nothing of the host is left, however the run ends, if the end of the poll
  loop can be waited for. -/
  watched : ∀ w, watchPaths ((s.initScript args :: args.watched).map Path.parse) (s.world args) =
    (.ok (), w) →
    (s.world args).IsJoinable →
    IsCleanedUp (hostScripts waiting (s.directory args) (s.initScript args) args (s.world args)).2
  /-- Where it cannot, the run ends with that failure, and everything of the
  host is left as it is. -/
  unjoined : ∀ w w' result e,
    watchPaths ((s.initScript args :: args.watched).map Path.parse) (s.world args) = (.ok (), w) →
    serveScripts waiting (s.directory args) args w = (result, w') → w'.joinFault? = some e →
    hostScripts waiting (s.directory args) (s.initScript args) args (s.world args) =
      (.error e, w'.idled)

/-- A directory with one script, whose body and closing fail, and observers that fail to stop. -/
def faulty : Surroundings where
  settings := Operator.served "a"
  files :=
    { here := ⟨.root, []⟩
      nodes :=
        [(["s"], .directory),
          (["s", "a"], .file
            (.script
              [.defer "c" (some (.raised "ValueError" "x")), .raise (.raised "ValueError" "x")])
            0.0)] }
  base := ⟨.root, ["s"]⟩
  observers := { stopError := some (.raised "ValueError" "x") }

/-- A round of the poll loop, and then an interrupt. -/
def interrupted : Act Unit := do
  pollRound World.host
  throw (.raised "KeyboardInterrupt" "")

theorem waits_interrupted (w : World) : Waits w (interrupted w).2 := by
  have hworld : (interrupted w).2 = (pollRound World.host w).2 := by
    rcases h : pollRound World.host w with ⟨e | _, w'⟩
    · rw [interrupted, bind_of_error h]
    · rw [interrupted, bind_of_ok h]
      rfl
  rw [hworld]
  exact .round .refl

theorem isHandled_faulty : faulty.IsHandled where
  here := by simp [faulty, Path.hasNull]
  nodes := by
    refine List.forall_mem_cons.mpr
      ⟨trivial, List.forall_mem_singleton.mpr ⟨fun e he => ?_, ?_, trivial⟩⟩
    · cases he
      exact ⟨rfl, Or.inr rfl⟩
    · rfl
  observers :=
    { schedule := fun e he => by cases he
      start := fun e he => by cases he
      stop := fun e he => by
        cases he
        exact Or.inr rfl }

theorem isDirectory_faulty : faulty.files.isDirectory ⟨.root, ["s"]⟩ = .ok true := by
  have hnull : (⟨.root, ["s"]⟩ : Path).hasNull = false := Path.hasNull_eq_false_iff.mpr (by decide)
  have hwalk : faulty.files.walk (FileTree.stepLimit ["s"]) [] ["s"] = .ok ["s"] :=
    FileTree.walk_entry rfl (by decide) rfl fun target h => by cases h
  have hfind : faulty.files.find ⟨.root, ["s"]⟩ = .ok ["s"] := by
    rw [FileTree.find, if_neg (by rw [hnull]; decide)]
    exact hwalk
  rw [FileTree.isDirectory, FileTree.lookup, hfind]
  rfl

end HotReload.CommandLine
