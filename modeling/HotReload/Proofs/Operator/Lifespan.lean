import HotReload.Operator.Service
import HotReload.Proofs.Host.History
import HotReload.Proofs.Host.Preload
import HotReload.Proofs.Host.Tidiness
import HotReload.Proofs.Host.Unreadable

/-!
# Lifespan of a service

A service that has started its host shuts it down at its end. Whatever operators, scripts and the
poll loop did in between, once the event loop has carried out what waits, every instance is
terminated, its resources are closed, and no observer runs, if every closer raises what has a
literal and the end of the poll loop can be waited for. A service that met a failure of the system
when it started its host ends without a shutdown, and leaves whatever was started by then.
-/
namespace HotReload

open World Operation

/-- Every run in which the host alone has to do with instances, where terminations
may be given up or not. -/
def Regime.free (abandons : Prop) : Regime := { Regime.all with abandons }

/-- Whether commits go to an event loop that runs. -/
def Executor.IsLoop (x : Executor) : Prop := x = .loop false

namespace Operator

variable {I : World → Prop} {E : Failure → Prop} {w w' w₀ : World} {s : Service}
  {settings : Settings}
  {a : Prop}

/-! What services bring about. -/

/-- Whether a kind of worlds is closed under what a service does when it
starts and for operators. -/
structure Serves (I : World → Prop) : Prop where
  log : ∀ {w}, I w → ∀ entry, I { w with journal := w.journal.enter entry }
  thread : ∀ {w}, I w → ∀ thread, I { w with thread }
  files : ∀ {w files}, I w → w.files.makeDirectory w.root = .ok files → I { w with files }
  /-- The host answers in worlds of that kind. -/
  host : ∀ request, request.IsNamed → Keeps I Ordinary (answer World.host request)

namespace Serves

variable (hI : Serves I)
include hI

theorem keeps_enter (entry : LogEntry) : Keeps I E (enter entry) :=
  keeps_modify fun _ h => hI.log h entry

omit hI in
/-- An operation comes to what the answer that is made of its result comes to. -/
theorem ends_of_answer {α β : Type} {act : Act α} {f : α → β}
    (h : Ends I E ((do return f (← act)) w)) :
    Ends I E (act w) := by
  rcases ha : act w with ⟨e | x, w'⟩
  · rw [bind_of_error ha] at h
    exact ends_error h.1 (h.2 e rfl)
  · rw [bind_of_ok ha] at h
    exact ends_ok h.1

theorem keeps_watchPaths (paths : List String) :
    Keeps I Ordinary (watchPaths (paths.map Path.parse)) :=
  fun w h => ends_of_answer (f := fun _ => HostAnswer.done) (hI.host (.watch paths) trivial w h)

theorem keeps_unwatchPaths (paths : List String) :
    Keeps I Ordinary (unwatchPaths (paths.map Path.parse)) :=
  fun w h => ends_of_answer (f := fun _ => HostAnswer.done) (hI.host (.unwatch paths) trivial w h)

theorem keeps_reconcile : Keeps I Ordinary (reconcile World.host) :=
  fun w h => ends_of_answer (f := HostAnswer.plan) (hI.host .reconcile trivial w h)

theorem keeps_preload : Keeps I Ordinary (preload World.host) :=
  fun w h => ends_of_answer (f := HostAnswer.cycles) (hI.host .preload trivial w h)

theorem keeps_start : Keeps I Ordinary start :=
  fun w h => ends_of_answer (f := fun _ => HostAnswer.done) (hI.host .start trivial w h)

theorem keeps_shutdown : Keeps I Ordinary (shutdown World.host) :=
  fun w h => ends_of_answer (f := fun _ => HostAnswer.done) (hI.host .shutdown trivial w h)

/-! Routes. -/

omit hI in
theorem keeps_asking {α : Type} (f : World → α) : Keeps I E (do return f (← get)) :=
  keeps_get_bind fun w h => keeps_pure _ w h

theorem keeps_perform (s : Service) (body : Option Value) (endpoint : Endpoint) :
    Keeps I Ordinary (perform s body endpoint) := by
  have hwatched : Keeps I Ordinary watchedResponse := keeps_asking _
  have hguarded {act : Act Response} (h : Keeps I Ordinary act) :
      Keeps I Ordinary (do
        if !s.isAttached then return detail 503 "Script loader unavailable"
        act) := by
    split
    · exact keeps_pure _
    · exact h
  cases endpoint with
  | description => exact keeps_pure _
  | pages => exact keeps_pure _
  | health => exact keeps_asking _
  | scripts => exact hguarded (keeps_asking _)
  | exports => exact hguarded (keeps_asking _)
  | watched => exact hguarded hwatched
  | watch =>
    refine hguarded ?_
    split
    · exact keeps_pure _
    · exact (hI.keeps_enter _).bind fun _ => (hI.keeps_watchPaths _).bind fun _ => hwatched
  | unwatch =>
    refine hguarded ?_
    split
    · exact keeps_pure _
    · exact (hI.keeps_enter _).bind fun _ => (hI.keeps_unwatchPaths _).bind fun _ => hwatched
  | reconcile => exact hguarded (hI.keeps_reconcile.bind fun _ => keeps_pure _)
  | preload => exact hguarded (hI.keeps_preload.bind fun _ => keeps_asking _)

theorem keeps_handle (s : Service) (r : Request) (endpoint : Endpoint) :
    Keeps I Ordinary (handle s r endpoint) := by
  unfold handle
  split
  · split
    · exact keeps_pure _
    · exact hI.keeps_perform s _ endpoint
  · exact hI.keeps_perform s none endpoint

theorem keeps_dispatch (s : Service) (r : Request) : Keeps I E (dispatch s r) := by
  unfold dispatch
  split
  · exact keeps_pure _
  · split
    · exact keeps_pure _
    · refine Keeps.bind (World.keeps_attempt (hI.keeps_handle s r _) fun _ he => Or.inl he)
        fun result => ?_
      cases result with
      | ok response => exact keeps_pure _
      | error e => exact (hI.keeps_enter _).bind fun _ => keeps_pure _

/-- Whatever an operator requests raises nothing. -/
theorem keeps_respond (s : Service) (r : Request) : Keeps I E (respond s r) := by
  unfold respond
  split
  · exact keeps_pure _
  · exact hI.keeps_dispatch s r

theorem keeps_serving {α : Type} {act : Act α} (h : Keeps I E act) :
    Keeps I anything (serving act) := by
  refine keeps_get_bind fun w hw => ?_
  refine Keeps.bind (keeps_modify fun w h => hI.thread h _) (fun _ => ?_) w hw
  refine (keeps_attempting h.anything).bind fun result => ?_
  exact Keeps.bind (keeps_modify fun w h => hI.thread h _) fun _ => keeps_any result

/-! Start and end. -/

theorem keeps_makeRoot : Keeps I Ordinary makeRoot := by
  refine keeps_get_bind fun w h => ?_
  have hends :=
    FileTree.edits_makeDirectories (t := w.files) (P := fun _ => True) (fun _ _ => trivial) trivial
    (w.root.parts.length + 1) w.root
  rcases hr : w.files.makeDirectory w.root with e | files
  · rw [← FileTree.makeDirectory, hr] at hends
    obtain ⟨fault, path, rfl⟩ := hends
    exact ends_error h (Failure.ordinary_file fault path)
  · exact ends_ok (hI.files h hr)

theorem keeps_startHost (settings : Settings) : Keeps I Ordinary (startHost settings) :=
  hI.keeps_makeRoot.bind fun _ => (hI.keeps_watchPaths [settings.scripts.initScript]).bind fun _ =>
    hI.keeps_preload.bind fun _ => hI.keeps_start

/-- A service that is not up was kept from it by what is no failure of the system. -/
theorem keeps_startUp (settings : Settings) :
    Keeps I (fun e => Ordinary e ∧ e.isSystem = false) (startUp settings) := by
  refine (hI.keeps_enter _).bind fun _ =>
    Keeps.bind (World.keeps_attempt (hI.keeps_startHost settings) fun e he => ?_)
    fun result => ?_
  · exact (Bool.eq_false_or_eq_true e.isSystem).imp_right fun hs => ⟨he, hs⟩
  · cases result with
    | ok _ => exact keeps_pure true
    | error e => exact (hI.keeps_enter _).bind fun _ => keeps_pure false

end Serves

/-- How starting a service goes. -/
theorem startUp_cases (settings : Settings) (w : World) : ∃ j,
    (∃ w', startHost settings { w with journal := j } = (.ok (), w') ∧
      startUp settings w = (.ok true, w')) ∨
    (∃ e w' j', startHost settings { w with journal := j } = (.error e, w') ∧ e.isSystem = true ∧
      startUp settings w = (.ok false, { w' with journal := j' })) ∨
    ∃ e w', startHost settings { w with journal := j } = (.error e, w') ∧ e.isSystem = false ∧
      startUp settings w = (.error e, w') := by
  rw [startUp, enter, modify_bind]
  generalize w.journal.enter _ = j
  refine ⟨j, ?_⟩
  rcases hs : startHost settings { w with journal := j } with ⟨e | u, w₁⟩
  · have ha : World.attempt Failure.isSystem (startHost settings) _ = _ := World.attempt_of_error hs
    cases he : e.isSystem with
    | false =>
      rw [if_neg (by rw [he]; decide)] at ha
      exact Or.inr (Or.inr ⟨e, w₁, rfl, he, bind_of_error ha _⟩)
    | true =>
      rw [if_pos he] at ha
      exact Or.inr (Or.inl ⟨e, w₁, _, rfl, he, (bind_of_ok ha _).trans rfl⟩)
  · exact Or.inl ⟨w₁, rfl, (bind_of_ok (World.attempt_of_ok hs) _).trans rfl⟩

/-- A service goes without its host only if the host met a failure of the system when it started. -/
theorem startUp_eq_false (h : startUp settings w = (.ok false, w')) :
    ∃ j e w₁, startHost settings { w with journal := j } = (.error e, w₁) ∧ e.isSystem = true := by
  obtain ⟨j, ⟨w₁, -, hs⟩ | ⟨e, w₁, -, hs, he, -⟩ | ⟨e, w₁, -, -, hs⟩⟩ := startUp_cases settings w
  · rw [h] at hs
    cases hs
  · exact ⟨j, e, w₁, hs, he⟩
  · rw [h] at hs
    cases hs

theorem shutDown_of_detached (h : s.isAttached = false) (w : World) :
    shutDown s w =
      (.ok (), { w with journal := w.journal.enter ⟨.info, "shutting_down_application", []⟩ }) := by
  rw [shutDown, enter, modify_bind, if_neg (by rw [h]; decide)]
  rfl

/-! What goes on while a service is up. -/

/-- Whether files, clocks and threads changed and the watch learned of it, while
its observers stayed. -/
structure Drifts (w w' : World) : Prop extends Calm w w' where
  executor : w'.executor = w.executor
  observers : ∀ d', w'.watch = some (.directory d') → ∃ d, w.watch = some (.directory d) ∧
    d'.observers = d.observers ∧ d'.current = d.current

/-- How the world of a service has come from one to another: operators made requests, the poll loop
made its rounds, and the event loop carried out what waited. -/
inductive Uptime (a : Prop) (s : Service) (w₀ : World) : World → Prop where
  | refl : Uptime a s w₀ w₀
  | request {w : World} (r : Request) (h : Uptime a s w₀ w) :
    Uptime a s w₀ (serving (respond s r) w).2
  | poll {w : World} (h : Uptime a s w₀ w) : Uptime a s w₀ (pollRound World.host w).2
  | callback {w : World} {c : Commit} (i : Nat) (h : Uptime a s w₀ w) (hc : w.tasks[i]? = some c) :
      Uptime a s w₀ (runLooped World.host c { w with tasks := w.tasks.eraseIdx i }).2
  | outside {w w' : World} (h : Uptime a s w₀ w) (hd : Drifts w w') (ht : IsTame (.free a) w') :
    Uptime a s w₀ w'

theorem Drifts.isTidy {R : Regime} {X : Executor → Prop} (hR : ¬R.abandons) (h : Drifts w w')
    (ht : IsTame R w') (hw : IsTidy X .between w) : IsTidy X .between w' := by
  have hscripts : w'.scripts = w.scripts := by rw [h.frame]
  have hclosed : w'.isClosed = w.isClosed := by rw [h.frame]
  refine ⟨ht.isMild hR fun s hs => (hw.mild.scripts s (hscripts ▸ hs)).state,
    fun s hs => hw.sealed s (hscripts ▸ hs), h.executor.symm ▸ hw.executor,
    fun d' hd' => ?_, fun hp hc d' hd' => ?_⟩
  · obtain ⟨d, hd, hobservers, hcurrent⟩ := h.observers d' hd'
    obtain ⟨-, hothers⟩ := hw.attended d hd
    exact ⟨rfl, fun n o ho => hcurrent ▸ hothers n o (hobservers ▸ ho)⟩
  · obtain ⟨d, hd, hobservers, hcurrent⟩ := h.observers d' hd'
    obtain ⟨hnone, hothers⟩ := hw.quiet hp (hclosed ▸ hc) d hd
    exact ⟨hcurrent.trans hnone, fun n o ho => hothers n o (hobservers ▸ ho)⟩

theorem tidies : Weathers (IsTidy Executor.IsLoop) :=
  IsTidy.weathers fun _ h => Executor.noConfusion h

theorem not_pool {p : Phase} (h : IsTidy Executor.IsLoop p w) (isClosed : Bool) :
    w.executor ≠ .pool isClosed := by
  have hloop : w.executor = .loop false := h.executor
  rw [hloop]
  exact Executor.noConfusion

section Serving

variable (hs : Moment.IsSane ⟨w₀, []⟩) (ht : IsTame (.free a) w₀)
include hs ht

/-- What a service does is a history of its host, and makes no mess unless
terminations are given up. -/
theorem serves_history :
    Serves fun w => History (.free a) w₀ w ∧ (¬a → IsTidy Executor.IsLoop .between w) where
  log h entry := by
    refine ⟨.outside h.1 ⟨rfl, rfl⟩ ?_, fun hR => (h.2 hR).beside ⟨rfl⟩⟩
    exact (h.1.reached id hs ht).tame.transfer rfl rfl rfl rfl rfl
  thread h name := by
    refine ⟨.outside h.1 ⟨rfl, rfl⟩ ?_, fun hR => (h.2 hR).beside ⟨rfl⟩⟩
    exact (h.1.reached id hs ht).tame.transfer rfl rfl rfl rfl rfl
  files {w files} h hr := by
    have htame := (h.1.reached id hs ht).tame
    have hends :=
      FileTree.edits_makeDirectories htame.nodes trivial (w.root.parts.length + 1) w.root
    rw [← FileTree.makeDirectory, hr] at hends
    obtain ⟨hnodes, hhere⟩ := hends
    refine ⟨.outside h.1 ⟨rfl, rfl⟩ ?_, fun hR => ?_⟩
    · exact ⟨htame.root, hhere ▸ htame.here, hnodes, trivial, htame.raises, htame.named,
        htame.refusal, htame.resources⟩
    · exact tidies.edit (h.2 hR) fun entry he => (hnodes entry he).isMild hR
  host request hn w h := by
    have hends :=
      Reached.serves_hostAt (depthLimit + 1) _ _ request trivial hn w (h.1.reached id hs ht)
    refine ⟨⟨.request (depthLimit + 1) request h.1 trivial hn, fun hR => ?_⟩, hends.2⟩
    exact (tidies.keeps_hostAt (depthLimit + 1) request w (h.2 hR)).1

/-- What goes on while a service is up is a history of its host, and makes no mess unless
terminations are given up. -/
theorem Uptime.history (h : Uptime a s w₀ w) (htidy : ¬a → IsTidy Executor.IsLoop .between w₀) :
    History (.free a) w₀ w ∧ (¬a → IsTidy Executor.IsLoop .between w) := by
  have hserves := serves_history hs ht
  have hhost := tidies.keeps_hostAt depthLimit
  induction h with
  | refl => exact ⟨.refl, htidy⟩
  | request r _ ih =>
    exact (hserves.keeps_serving (hserves.keeps_respond (E := anything) s r) _ ih).1
  | poll _ ih =>
    exact ⟨.poll depthLimit ih.1, fun hR => (tidies.keeps_pollRound hhost _ (ih.2 hR)).1⟩
  | callback i _ hc ih =>
    refine ⟨.carry .loop depthLimit i ih.1 hc, fun hR => ?_⟩
    exact (tidies.keeps_runLooped hhost _ _ ((ih.2 hR).beside ⟨rfl⟩)).1
  | outside _ hd htame ih =>
    exact ⟨.outside ih.1 hd.toCalm htame, fun hR => hd.isTidy hR htame (ih.2 hR)⟩

/-- A host that is shut down is closed, whatever that raises, if the end of its poll
loop can be waited for. -/
theorem ends_closed (hR : ¬a) (hj : w.joinFault? = none)
    (h : History (.free a) w₀ w ∧ (¬a → IsTidy Executor.IsLoop .between w)) :
    Ends
      (fun w' => (History (.free a) w₀ w' ∧ (¬a → IsTidy Executor.IsLoop .between w')) ∧
        w'.isClosed = true)
      Ordinary (shutdown World.host w) := by
  have hclosed : Ends (fun w' => Reached (.free a) ⟨w₀, []⟩ [] w' ∧ w'.isClosed = true) Ordinary
      (shutdown World.host w) :=
    (Reached.sustains (.free a) ⟨w₀, []⟩).ends_shutdown trivial hj (not_pool (h.2 hR))
      (h.1.reached id hs ht)
  exact ((serves_history hs ht).keeps_shutdown w h).and (hclosed.imp fun _ h' => h'.2)

end Serving

/-! Passages. -/

/-- Whether a host was just set up for a service: commits go to its event loop, and its watch has
not made an observer. -/
structure IsSetUp (w : World) : Prop extends IsNew w where
  loop : w.executor = .loop false
  observers : ∀ d, w.watch = some (.directory d) → d.current = none ∧ d.observers = []

/-- Whether nothing of a host is left to be ended. -/
structure IsOver (w : World) : Prop where
  registry : w.registry = []
  terminated : ∀ n s, w.script? n = some s → s.state = .terminated ∧ s.resources.IsSealed
  watch : ∀ d, w.watch = some (.directory d) → d.current = none ∧
    ∀ o ∈ d.observers, o.isStarted = true → o.isStopped = true

/-- A closed host of which nothing waits is over. -/
theorem isOver_of_closed (hR : ¬a) (hnew : w₀.IsNew) (ht : IsTame (.free a) w₀)
    (h : History (.free a) w₀ w) (htidy : IsTidy Executor.IsLoop .between w)
    (hc : w.isClosed = true) (htasks : w.tasks = []) : IsOver w := by
  have hw := h.reached id hnew.isSane ht
  have horderly := Walk.isOrderly hw.walk hnew.isSane hnew.isOrderly
  have hregistry := horderly.closed hc
  refine ⟨hregistry, fun n s hs => ?_, fun d hd => (htidy.quiet rfl hc d hd).stopped⟩
  have hover := (horderly.atRest hw.sane.registered hs).terminated hR hregistry htasks
  exact ⟨hover, htidy.sealed s (List.mem_of_getElem? hs) hover⟩

/-- What becomes of a host in the lifespan of a service, where terminations
may be given up or not. -/
structure Lifespan (a : Prop) (settings : Settings) (w₀ : World) : Prop where
  /-- Whatever failure of the system starting the host meets, the service comes up. -/
  comesUp : ∀ e w₁, startUp settings w₀ = (.error e, w₁) → Ordinary e ∧ e.isSystem = false
  /-- With a host, the host is over once the service has ended and what waited was carried out, if
  no termination is given up and the end of the poll loop can be waited for. -/
  attached : ¬a → ∀ w₁ w₂, startUp settings w₀ = (.ok true, w₁) → Uptime a ⟨settings, true⟩ w₁ w₂ →
    w₂.joinFault? = none →
    Ends (fun w₃ => ∀ s w, Uptime a s w₃ w → w.tasks = [] → IsOver w) Ordinary
      (shutDown ⟨settings, true⟩ w₂)
  /-- Where it cannot, the service ends with that failure, and nothing is ended. -/
  unjoined : ∀ w₂ e, w₂.joinFault? = some e → shutDown ⟨settings, true⟩ w₂ =
    (.error e,
      { w₂.idled with journal := w₂.journal.enter ⟨.info, "shutting_down_application", []⟩ })
  /-- Without, the end of the service leaves all that the host had started
  before it failed to start. -/
  detached : ∀ w₁ w₂, startUp settings w₀ = (.ok false, w₁) → Uptime a ⟨settings, false⟩ w₁ w₂ →
    (∃ j e w, startHost settings { w₀ with journal := j } = (.error e, w) ∧ e.isSystem = true) ∧
    shutDown ⟨settings, false⟩ w₂ =
      (.ok (), { w₂ with journal := w₂.journal.enter ⟨.info, "shutting_down_application", []⟩ })

/-- Whatever scripts, operators and the system do, a service that has a host leaves nothing of it,
and a service goes without one only if the system failed it at the start. -/
theorem lifespan (settings : Settings) (hw : IsSetUp w₀) (ht : IsTame (.free a) w₀) :
    Lifespan a settings w₀ := by
  have hsane := hw.isSane
  have hserves := serves_history hsane ht
  have hjoin {v : World} {fault : Option Failure} {j : Journal} (h : v.joinFault? = fault) :
      ({ v with journal := j } : World).joinFault? = fault := h
  have hstart := hserves.keeps_startUp settings w₀
    ⟨.refl, fun hR => .new (R := .free a) hR ht hw.scripts hw.loop hw.observers⟩
  refine ⟨fun e w₁ h => ?_, fun hR w₁ w₂ h hrun hj => ?_, fun w₂ e hj => ?_,
    fun w₁ w₂ h _ => ⟨startUp_eq_false h, shutDown_of_detached rfl w₂⟩⟩
  · exact hstart.2 e (congrArg Prod.fst h)
  · rw [h] at hstart
    obtain ⟨⟨hbefore, htidy⟩, -⟩ := hstart
    have h₁ := hbefore.reached id hsane ht
    obtain ⟨hup, htidy₂⟩ := hrun.history h₁.sane h₁.tame htidy
    have hlogged := hserves.log ⟨hbefore.trans hup, htidy₂⟩ ⟨.info, "shutting_down_application", []⟩
    rw [shutDown, enter, modify_bind, if_pos rfl]
    refine (ends_closed hsane ht hR (hjoin hj) hlogged).imp fun w₃ h₃ s w hrun₃ htasks => ?_
    obtain ⟨⟨hhistory₃, htidy₃⟩, hclosed⟩ := h₃
    have h₃ := hhistory₃.reached id hsane ht
    obtain ⟨hafter, htidy⟩ := hrun₃.history h₃.sane h₃.tame htidy₃
    have hstays : w.isClosed = true :=
      Walk.isClosed (hafter.reached id h₃.sane h₃.tame).walk hclosed
    exact isOver_of_closed hR hw.toIsNew ht (hhistory₃.trans hafter) (htidy hR) hstays htasks
  · rw [shutDown, enter, modify_bind, if_pos rfl, shutdown]
    exact bind_of_error (stopPolling_of_some (hjoin hj)) _

/-! Services with and without a host. -/

/-- A host that a service sets up is so. -/
theorem isSetUp_create (settings : Settings) (files : FileTree FileContent) {o : HostOptions}
    (hx : o.executor = some (.loop false)) (hn : o.watch = none) :
    IsSetUp (World.create settings files o) where
  toIsNew := isNew_create settings files o
  loop := by rw [World.create, hx]; rfl
  observers d hd := by
    simp only [World.create, hn] at hd
    split at hd
    · cases hd
      exact ⟨rfl, rfl⟩
    · cases hd

/-- The settings of a service with an init script. -/
def served (initScript : String) : Settings where
  appName := "service"
  appVersion := "0"
  environment := "test"
  scripts :=
    { directory := ⟨.root, ["s"]⟩, initScript, pollIntervalMs := 1000, preloadMaxCycles := 64,
      executorThreadName := "t" }
  watcher := { enabled := true, recursive := true, debounceDelayMs := 0, ignorePatterns := [] }
  api := ⟨[]⟩
  logging := ⟨"INFO", "json", none⟩

/-- A host that was set up for a service, with nothing in its script root. -/
def vacant : World :=
  World.create (served "a") { here := ⟨.root, []⟩, nodes := [(["s"], .directory)] }
    { root := ⟨.root, ["s"]⟩, base := ⟨.root, ["s"]⟩, executor := some (.loop false) }

theorem isTame_vacant : IsTame (.free a) vacant where
  root := by simp [vacant, World.create, Path.hasNull]
  here := by simp [vacant, World.create, Path.hasNull]
  nodes := List.forall_mem_singleton.mpr trivial
  tree := trivial
  raises x hx := by
    cases hx
    exact ⟨fun e he => (by cases he), fun e he => (by cases he), fun e he => by cases he⟩
  named x hx := by
    cases hx
    exact fun c hc => by cases hc
  refusal e he := by cases he
  resources s hs := by cases hs

theorem makeRoot_vacant (j : Journal) :
    makeRoot { vacant with journal := j } = (.ok (), { vacant with journal := j }) := by
  have hmake : vacant.files.makeDirectory vacant.root = .ok vacant.files := by
    simp [FileTree.makeDirectory, FileTree.makeDirectories, FileTree.place, FileTree.lookup,
      FileTree.find, FileTree.walk, FileTree.stepLimit, FileTree.node?, FileTree.nameLimit,
      Path.hasNull, Path.join, Path.isAbsolute, Path.parent, vacant, World.create]
    rfl
  rw [makeRoot, get_bind, hmake]
  rfl

/-- The host once it watches a path for the operator. -/
def attending (p : Path) (j : Journal) : World :=
  { vacant with claims := [(p, 1)], operator := ⟨[p]⟩, journal := j }

theorem startHost_vacant {initScript : String} {p : Path} (hp : Path.parse initScript = p)
    (hc : ∀ w : World, w.form? p = some p) (j : Journal) :
    startHost (served initScript) { vacant with journal := j } =
      (do let _ ← preload World.host; World.start) (attending p j) := by
  have hsettled (w : World) : ∀ q ∈ [p], w.form? q = some q := List.forall_mem_singleton.mpr (hc w)
  have hwatch : watchPaths [p] { vacant with journal := j } = (.ok (), attending p j) := by
    rw [watchPaths, get_bind, normalizeAll_of_none (circleAmong?_of_settled (hsettled _)),
      map_canonical_of_settled (hsettled _)]
    have hclaimed :=
      claimAll_of_none
        (circleAmong?_of_settled (hsettled { vacant with operator := ⟨[p]⟩, journal := j }))
    rw [map_canonical_of_settled (hsettled _)] at hclaimed
    exact hclaimed
  rw [startHost, bind_of_ok (makeRoot_vacant j)]
  change (do watchPaths [Path.parse initScript]; let _ ← preload World.host; World.start) _ = _
  rw [hp, bind_of_ok hwatch]

/-- The host once its observer runs. -/
def observing (p : Path) (j : Journal) : World :=
  { attending p j with
    watch := some (.directory
      { DirectoryWatch.create (served "a").watcher ⟨.root,
        ["s"]⟩ ((vacant.files.resolve? ⟨.root, ["s"]⟩).getD ⟨.root, ["s"]⟩) {} with
        observers := [{ isStarted := true }], current := some 0 })
    watchStarted := true }

theorem ensureWatch_attending (p : Path) (j : Journal) :
    ∃ j', ensureWatch (attending p j) = (.ok (), observing p j') :=
  ⟨_, rfl⟩

theorem watchedFiles_observing (p : Path) (j : Journal) : watchedFiles (observing p j) =
    ((vacant.files.isFile (vacant.fileOf p)).map fun isFile => [(p, isFile)], observing p j) := by
  have hwatched : (observing p j).watched = [p] := rfl
  have hfiles : (observing p j).files.isFile ((observing p j).fileOf p) = vacant.files.isFile
    (vacant.fileOf p) := rfl
  rw [watchedFiles, get_bind, hwatched, List.mapM_cons, hfiles]
  rcases vacant.files.isFile (vacant.fileOf p) with e | b <;> rfl

theorem isFile_vacant : vacant.files.isFile (vacant.fileOf ⟨.relative, ["a"]⟩) = .ok false :=
  FileTree.isFile_missing rfl (by decide) (by decide) rfl

theorem rearmWatch_observing (p : Path) (j : Journal) :
    ∃ j', rearmWatch (observing p j) = (.ok (), observing p j') := by
  have hroot : (observing p j).rootExists = .ok true := by
    have hlookup : vacant.files.lookup vacant.root = .ok .directory := by
      simp [FileTree.lookup, FileTree.find, FileTree.walk, FileTree.stepLimit, FileTree.node?,
        FileTree.nameLimit, Path.hasNull, Path.join, Path.isAbsolute, vacant, World.create]
      rfl
    have hfiles : (observing p j).files.lookup (observing p j).root = .ok .directory := hlookup
    rw [rootExists, FileTree.isDirectory, hfiles]
  rw [rearmWatch, get_bind, hroot]
  exact ⟨_, rfl⟩

/-- The observer runs when the path cannot be asked for, and then nobody stops it. -/
theorem startUp_vacant_longPath :
    ∃ j, startUp (served (lettered 256)) vacant = (.ok false, observing longPath j) := by
  obtain ⟨e, he⟩ : ∃ e, vacant.files.isFile (vacant.fileOf longPath) = .error e :=
    isFile_longPath rfl rfl
  have hstart (j : Journal) : ∃ j',
      startHost (served (lettered 256))
        { vacant with journal := j } = (.error e, observing longPath j') := by
    obtain ⟨j', hensure⟩ := ensureWatch_attending longPath j
    have hcycle : cycle (attending longPath j) = (.error e, observing longPath j') := by
      refine bind_of_error ((bind_of_ok hensure _).trans (bind_of_error ?_ _)) _
      rw [watchedFiles_observing, he]
      rfl
    have hcycles : preloadCycles World.host 64 0 (attending longPath j) =
      (.error e, observing longPath j') :=
      bind_of_error hcycle _
    have hpreload : preload World.host (attending longPath j) = (.error e, observing longPath j') :=
      bind_of_error hcycles _
    exact ⟨j', (startHost_vacant parse_lettered form?_longPath j).trans (bind_of_error hpreload _)⟩
  obtain ⟨j, h⟩ := startUp_cases (served (lettered 256)) vacant
  obtain ⟨j', hs⟩ := hstart j
  rw [hs] at h
  rcases h with ⟨w, hw, -⟩ | ⟨e', w, j'', hw, -, h⟩ | ⟨e', w, hw, hn, -⟩
  · cases hw
  · cases hw
    exact ⟨_, h⟩
  · cases hw
    rw [isFile_error he] at hn
    cases hn

/-- Without its init script, the service has a host. -/
theorem startUp_vacant :
    ∃ w, startUp (served "a") vacant = (.ok true, w) ∧ w.joinFault? = none := by
  let p : Path := ⟨.relative, ["a"]⟩
  have hstart (j : Journal) : ∃ w, startHost (served "a")
    { vacant with journal := j } = (.ok (), w) ∧
      w.joinFault? = none := by
    obtain ⟨j', hensure⟩ := ensureWatch_attending p j
    have hfiles : watchedFiles (observing p j') = (.ok [(p, false)], observing p j') := by
      rw [watchedFiles_observing, isFile_vacant]
      rfl
    have hpoll : ∃ j'', pollChanges (observing p j') = (.ok [], observing p j'') := ⟨_, rfl⟩
    obtain ⟨j₁, hpoll⟩ := hpoll
    obtain ⟨j₂, hrearm⟩ := rearmWatch_observing p j₁
    have hplan : planCycle (attending p j) = (.ok {}, observing p j₂) := by
      rw [planCycle, bind_of_ok hensure, bind_of_ok hfiles, bind_of_ok hpoll, bind_of_ok hrearm]
      rfl
    have hcycle : cycle (attending p j) = (.ok { plan := {} }, observing p j₂) :=
      (bind_of_ok hplan _).trans rfl
    have hcycles : (0 : Int) < 64 := by decide
    obtain ⟨j₃, hpreload⟩ : ∃ j₃, preload World.host (attending p j) = (.ok 1, observing p j₃) :=
      preload_of_cycle rfl hcycles hcycle rfl rfl
    exact ⟨_,
      (startHost_vacant (p := p) rfl (fun w => form?_of_none (circle?_of_relative rfl)) j).trans
        ((bind_of_ok hpreload _).trans rfl), rfl⟩
  obtain ⟨j, h⟩ := startUp_cases (served "a") vacant
  obtain ⟨w, hs, hj⟩ := hstart j
  rw [hs] at h
  rcases h with ⟨w, hw, h⟩ | ⟨e', w, j'', hw, -, -⟩ | ⟨e', w, hw, -, -⟩
  · cases hw
    exact ⟨_, h, hj⟩
  · cases hw
  · cases hw

/-- A service that is up in the end, and one that leaves an observer behind. -/
theorem lifespan_vacant : ¬False ∧ IsSetUp vacant ∧ IsTame (.free False) vacant ∧
    Lifespan False (served "a") vacant ∧
      (∃ w, startUp (served "a") vacant = (.ok true, w) ∧ w.joinFault? = none) ∧
    Lifespan False (served (lettered 256)) vacant ∧
      ∃ w, startUp (served (lettered 256)) vacant = (.ok false, w) ∧
        ¬IsOver (shutDown ⟨served (lettered 256), false⟩ w).2 := by
  have hw : IsSetUp vacant := isSetUp_create _ _ rfl rfl
  obtain ⟨j, hup⟩ := startUp_vacant_longPath
  refine ⟨id, hw, isTame_vacant, lifespan _ hw isTame_vacant, startUp_vacant,
    lifespan _ hw isTame_vacant, _, hup,
    fun h => ?_⟩
  rw [shutDown_of_detached rfl] at h
  exact Option.some_ne_none _ (h.watch _ rfl).1

end Operator

end HotReload
