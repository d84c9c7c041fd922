import HotReload.Proofs.Host.Lives
import HotReload.Proofs.Host.Termination
import HotReload.Proofs.Watch.Attention

/-!
# Whatever happens

What the host and its scripts do to a world comes down to a few changes. A kind of worlds that is
closed under them weathers every operation of the host, whatever bodies and watches raise. While a
cycle or a shutdown goes on less may be true of a world than between them.
-/
namespace HotReload

namespace Action

mutual

/-- Whether what an action, or what it writes, registers to be closed fails at most with what is
handled and has a literal. A body may raise whatever it likes. -/
def IsMild : Action → Prop
  | .defer _ failure => ∀ e, failure = some e → e.IsTame .thorough
  | .once _ action => IsMild action
  | .write _ body => AreMild body
  | _ => True

def AreMild : List Action → Prop
  | [] => True
  | action :: rest => IsMild action ∧ AreMild rest

end

end Action

def FileNode.IsMild : FileNode FileContent → Prop
  | .file (.script body) _ => Action.AreMild body
  | _ => True

/-- Whether what an instance holds closes in such a way, and nobody is terminating it. -/
structure Script.IsMild (s : Script) : Prop where
  resources : s.resources.IsTame .thorough
  state : s.state ≠ .terminating

namespace Operation

variable {σ α : Type} {I : σ → Prop} {E : Failure → Prop}

abbrev anything : Failure → Prop := fun _ => True

theorem Keeps.anything {act : Operation σ α} (h : Keeps I E act) : Keeps I Operation.anything act :=
  h.mono fun _ _ => trivial

end Operation

namespace World

open Operation

/-- Whether nothing but the body of a script raises what ends a run. -/
structure IsMild (w : World) : Prop where
  nodes : w.files.Holds FileNode.IsMild
  scripts : ∀ s ∈ w.scripts, s.IsMild

/-- Runs an instance that a commit lists; what a handler lets through leaves the commit. -/
def runListed (host : HostRequest → Act HostAnswer) (n : Nat) : Act Unit := do
  let s ← script n
  match ← World.attempt Failure.isOrdinary (run host n) with
  | .ok () => pure ()
  | .error e =>
    log "Reconciler" .error "script_run_failed" [("path", .text s.path.toText), LogEntry.attached e]

def endListed (n : Nat) : Act Unit := do
  let s ← script n
  match ← World.attempt Failure.isOrdinary (terminate n) with
  | .ok true => pure ()
  | .ok false =>
    log "Reconciler" .warning "script_terminated_with_errors" [("path", .text s.path.toText)]
  | .error e =>
    log "Reconciler" .error "script_terminate_failed"
      [("path", .text s.path.toText), LogEntry.attached e]

theorem commit_eq_loops (host : HostRequest → Act HostAnswer) (c : Commit) :
    commit host c = c.toRun.forM (runListed host) >>= fun _ => c.toTerminate.forM endListed := rfl

/-- Executes the body of an instance that was started, and keeps with it what the body raised. -/
def runLaunched (host : HostRequest → Act HostAnswer) (n : Nat) (s : Script) : Act Unit := do
  match ← World.attempt Failure.isOrdinary (execute host n) with
  | .ok () => pure ()
  | .error e =>
    updateScript n ({ · with error := some e })
    log "Script" .error "script_run_failed"
      [("path", .text s.path.toText), ("error", .text e.message), LogEntry.attached e]

variable {w w' : World} {n : Nat} {s : Script} {α β : Type} {host : HostRequest → Act HostAnswer}

theorem run_of_created (hs : w.script? n = some s) (hc : s.state = .created) :
    run host n w = runLaunched host n s (w.launched n) := by
  rw [run, bind_of_ok (script_of_some hs), if_neg (not_not_intro hc), updateScript, modify_bind]
  rfl

theorem mild_bodyOf (h : IsMild w) (p : Path) : Action.AreMild (w.bodyOf p) := by
  refine bodyOf_holds (P := Action.AreMild) trivial (fun loc body time he => ?_) p
  have hm : (FileNode.file (FileContent.script body) time).IsMild := h.nodes _ he
  exact hm

theorem IsMild.modify (h : IsMild w) {f : Script → Script}
    (hf : ∀ s, w.script? n = some s → s.IsMild → (f s).IsMild) :
    IsMild { w with scripts := w.scripts.modify n f } := ⟨h.nodes, forall_modify h.scripts hf⟩

/-- New instances hold nothing. -/
theorem IsMild.make (h : IsMild w) (hs : s.resources = {}) (hc : s.state = .created) :
    IsMild { w with scripts := w.scripts ++ [s] } := by
  refine ⟨h.nodes,
    List.forall_mem_append.mpr ⟨h.scripts, List.forall_mem_singleton.mpr ⟨fun g hg => ?_, ?_⟩⟩⟩
  · rw [hs] at hg
    cases hg
  · rw [hc]
    exact ScriptState.noConfusion

/-- Whether instances, files, the watch and the executor are as they were, and the
host is open if it was. -/
structure Beside (w w' : World) : Prop where
  frame : w' = { w with
    registry := w'.registry, claims := w'.claims, operator := w'.operator, exports := w'.exports
    engine := w'.engine, watchStarted := w'.watchStarted, tasks := w'.tasks,
      isPolling := w'.isPolling
    isStranded := w'.isStranded, thread := w'.thread, met := w'.met, journal := w'.journal }

/-- Whether only the registry and the journal changed, and whether the watch was started. -/
structure Booked (w w' : World) : Prop where
  frame : w' =
    { w with registry := w'.registry, watchStarted := w'.watchStarted, journal := w'.journal }

theorem Booked.beside (h : Booked w w') : Beside w w' := by
  refine ⟨?_⟩
  rw [h.frame]

/-- Whether a kind of worlds is closed under the changes that a cycle makes. -/
structure Bears (I : World → Prop) : Prop where
  booked : ∀ {w w'}, I w → Booked w w' → I w'
  make : ∀ {w s}, I w → s.resources = {} → s.state = .created → I
    { w with scripts := w.scripts ++ [s] }
  feed : ∀ {w s s'}, I w → w.watch = some (.scripted s) → I { w with watch := some (.scripted s') }
  /-- The watch uses another observer perhaps. -/
  tend : ∀ {w d d'}, I w → w.watch = some (.directory d) → (d.IsAttended → d'.IsAttended) →
    I { w with watch := some (.directory d') }

/-- Whether a host is in the midst of a cycle or a shutdown, or between them. -/
inductive Phase where
  | between
  | amid

/-- Whether a kind of mild worlds is closed under whatever the host and its scripts do. -/
structure Weathers (I : Phase → World → Prop) : Prop where
  mild : ∀ {p w}, I p w → IsMild w
  beside : ∀ {p w w'}, I p w → Beside w w' → I p w'
  amend : ∀ {p w n} (f : Script → Script), I p w →
    (∀ s, (f s).resources = s.resources ∧ (f s).state = s.state) →
    I p { w with scripts := w.scripts.modify n f }
  allocate : ∀ {p w n s resources}, I p w → w.script? n = some s →
    s.resources.Becomes .thorough resources →
    I p { w with scripts := w.scripts.modify n ({ · with resources }) }
  launch : ∀ {p w n s}, I p w → w.script? n = some s → s.state = .created → I p (w.launched n)
  ended : ∀ {p w w' n s}, I p w → w.script? n = some s → s.isOver = false → Ended n s w w' → I p w'
  make : ∀ {p w s}, I p w → s.resources = {} → s.state = .created → I p
    { w with scripts := w.scripts ++ [s] }
  edit : ∀ {p w files}, I p w → files.Holds FileNode.IsMild → I p { w with files }
  /-- A pool takes no more commits. -/
  retire : ∀ {p w isClosed}, I p w → w.executor = .pool isClosed → I p
    { w with executor := .pool true }
  feed : ∀ {p w s s'}, I p w → w.watch = some (.scripted s) → I p
    { w with watch := some (.scripted s') }
  tend : ∀ {w d d'}, I .amid w → w.watch = some (.directory d) → (d.IsAttended → d'.IsAttended) →
    I .amid { w with watch := some (.directory d') }
  enter : ∀ {w}, I .between w → I .amid w
  /-- A cycle of an open host is over. -/
  leave : ∀ {w}, I .amid w → w.isClosed = false → I .between w
  close : ∀ {w}, I .amid w → I .amid { w with isClosed := true }
  /-- A shutdown has stopped the watch. -/
  stop : ∀ {w d d'}, I .amid w → w.watch = some (.directory d) → (d.IsAttended → d'.IsQuiet) →
    I .between { w with watch := some (.directory d') }
  /-- There was no watch to be stopped, or a scripted one. -/
  settle : ∀ {w}, I .amid w → (∀ d, w.watch ≠ some (.directory d)) → I .between w

/-! What is true of every kind of worlds. -/

section Reading

variable {I : World → Prop}

theorem keeps_raise (e : Failure) : Keeps I anything (throw e : Act α) := keeps_throw trivial

theorem keeps_any (result : Except Failure α) : Keeps I anything (liftExcept result) :=
  keeps_liftExcept fun _ _ => trivial

theorem keeps_attempting {handles : Failure → Bool} {act : Act α} (h : Keeps I anything act) :
    Keeps I anything (World.attempt handles act) :=
  World.keeps_attempt h fun _ _ => Or.inr trivial

theorem ends_attempting {handles : Failure → Bool} {act : Act α} (h : Ends I anything (act w)) :
    Ends I anything (World.attempt handles act w) :=
  ends_attempt h fun _ _ => Or.inr trivial

theorem keeps_script {f : Script → Act α}
    (h : ∀ w s, I w → w.script? n = some s → Ends I anything (f s w)) :
    Keeps I anything (script n >>= f) := by
  intro w hw
  rcases hs : w.script? n with _ | s
  · rw [bind_of_error (script_of_none hs)]
    exact ends_error hw trivial
  · rw [bind_of_ok (script_of_some hs)]
    exact h w s hw hs

end Reading

/-! Cycles. -/

namespace Bears

variable {I : World → Prop} (hI : Bears I)
include hI

theorem keeps_log (component : String) (level : LogLevel) (event : String)
    (fields : List (String × Value)) :
    Keeps I anything (log component level event fields) :=
  keeps_modify fun _ h => hI.booked h ⟨rfl⟩

theorem ends_scripted {d : ScriptedWatch} (act : ScriptedWatch → Except Failure α × ScriptedWatch)
    (h : I w) (hx : w.watch = some (.scripted d)) : Ends I anything (scripted d act w) :=
  ⟨hI.feed h hx, fun _ _ => trivial⟩

theorem ends_watching {d : DirectoryWatch} {act : Watching α} (h : I w)
    (hx : w.watch = some (.directory d))
    (ha : d.IsAttended → (act { watch := d }).2.watch.IsAttended) :
    Ends I anything (watching d act w) :=
  ⟨hI.booked (hI.tend h hx ha) ⟨rfl⟩, fun _ _ => trivial⟩

theorem keeps_ensureWatch : Keeps I anything ensureWatch := by
  refine keeps_get_bind fun w h => ?_
  rcases hx : w.watch with _ | x
  · exact keeps_pure _ w h
  · dsimp only
    split
    · rw [set_bind]
      have hstarted : I { w with watch := some x, watchStarted := true } := by
        rw [← hx]
        exact hI.booked h ⟨rfl⟩
      refine Ends.bind (ends_attempting ?_) fun result => ?_
      · rcases x with d | d
        · exact hI.ends_scripted _ hstarted rfl
        · have hstart :=
            hI.ends_watching hstarted rfl fun ha =>
              (DirectoryWatch.ends_start (r := { watch := d }) False.elim ha).1
          exact hstart.bind fun _ => keeps_pure _
      · cases result with
        | ok _ => exact keeps_pure _
        | error e => exact hI.keeps_log _ _ _ _
    · exact keeps_pure _ w h

theorem keeps_pollChanges : Keeps I anything pollChanges := by
  have hlift (results : List (Except Failure Change)) :
      Keeps I anything (results.mapM liftExcept : Act (List Change)) := by
    intro w h
    rcases liftAll_cases (E := anything) w results fun _ _ _ _ =>
      trivial with ⟨hl, -⟩ | ⟨e, hl, -⟩ <;> rw [hl]
    · exact ends_ok h
    · exact ends_error h trivial
  refine keeps_get_bind fun w h => ?_
  rcases hx : w.watch with _ | x
  · exact keeps_pure _ w h
  · refine Ends.bind (ends_attempting ?_) fun result => ?_
    · rcases x with d | d
      · exact (hI.ends_scripted _ h hx).bind fun _ => keeps_pure _
      · have hpoll :=
          hI.ends_watching h hx fun ha =>
            (DirectoryWatch.ends_poll (r := { watch := d }) w.now ha).1
        exact hpoll.bind fun _ => keeps_pure _
    · cases result with
      | ok changes => exact hlift changes
      | error e => exact (hI.keeps_log _ _ _ _).bind fun _ => keeps_pure _

theorem keeps_rearmWatch : Keeps I anything rearmWatch := by
  refine keeps_get_bind fun w h => ?_
  rcases hx : w.watch with _ | x
  · exact keeps_pure _ w h
  · refine Ends.bind (ends_attempting ?_) fun armed => ?_
    · rcases x with d | d
      · exact hI.ends_scripted _ h hx
      · exact hI.ends_watching h hx fun ha =>
          (DirectoryWatch.ends_rearm (r := { watch := d }) w.rootExists ha).1
    · rcases armed with e | ⟨_ | _⟩
      on_goal 3 => exact keeps_pure _
      on_goal 1 => refine (hI.keeps_log _ _ _ _).bind fun _ => ?_
      -- a stale watch is replaced in the same way whether the check failed or said so
      all_goals
        refine (hI.keeps_log _ _ _ _).bind fun _ => keeps_get_bind fun w' h' => ?_
        refine Ends.bind (ends_attempting ?_) fun recreated => ?_
        · rcases hx' : w'.watch with _ | d | d
          · exact keeps_pure _ w' h'
          · exact hI.ends_scripted _ h' hx'
          · exact hI.ends_watching h' hx' fun ha =>
              (DirectoryWatch.ends_recreate (r := { watch := d }) False.elim ha).1
        · rcases recreated with e | ⟨_ | _⟩
          · exact hI.keeps_log _ _ _ _
          · exact hI.keeps_log _ _ _ _
          · exact keeps_pure _

theorem keeps_planCycle : Keeps I anything planCycle := by
  refine hI.keeps_ensureWatch.bind fun _ => Keeps.bind (fun w h => ?_) fun watched => ?_
  · rcases askFiles_cases w w w.watched with ⟨hf, -⟩ | ⟨e, p, hf, -⟩ <;> rw [watchedFiles_eq, hf]
    · exact ends_ok h
    · exact ends_error h trivial
  · refine hI.keeps_pollChanges.bind fun changes => hI.keeps_rearmWatch.bind fun _ => ?_
    exact keeps_get_bind fun w h => keeps_pure _ w h

theorem keeps_registerNew (path : Path) : Keeps I anything (registerNew path) := by
  have hnew : Keeps I anything (newScript path) := by
    refine keeps_get_bind fun w h => (keeps_any _).bind (fun modified => ?_) w h
    exact fun _ _ => ends_ok (hI.make h rfl rfl)
  exact hnew.bind fun n =>
    Keeps.bind (keeps_modify fun _ h => hI.booked h ⟨rfl⟩) fun _ => keeps_pure n

theorem keeps_applyReloads (queue : List Path) (done : Applied) :
    Keeps I anything (applyReloads queue done) := by
  induction queue generalizing done with
  | nil => exact keeps_pure done
  | cons p rest ih =>
    refine keeps_get_bind fun w h => ?_
    cases w.registry.get? p with
    | none => exact ih done w h
    | some old =>
      exact (hI.keeps_registerNew p).bind (fun n => (hI.keeps_log _ _ _ _).bind fun _ => ih _) w h

theorem keeps_applyLoads (paths : List Path) (done : Applied) :
    Keeps I anything (applyLoads paths done) := by
  induction paths generalizing done with
  | nil => exact keeps_pure done
  | cons p rest ih =>
    refine keeps_get_bind fun w h => ?_
    cases w.registry.get? p with
    | some _ => exact ih done w h
    | none =>
      exact (hI.keeps_registerNew p).bind (fun n => (hI.keeps_log _ _ _ _).bind fun _ => ih _) w h

theorem keeps_applyUnloads (entries : List (Path × Nat)) (done : Applied) :
    Keeps I anything (applyUnloads entries done) := by
  induction entries generalizing done with
  | nil => exact keeps_pure done
  | cons entry rest ih =>
    exact Keeps.bind (keeps_modify fun _ h => hI.booked h ⟨rfl⟩) fun _ =>
      (hI.keeps_log _ _ _ _).bind fun _ => ih _

theorem keeps_cycle : Keeps I anything cycle :=
  hI.keeps_planCycle.bind fun _ => (hI.keeps_applyReloads _ _).bind fun done =>
    (hI.keeps_applyLoads _ done).bind fun done => hI.keeps_applyUnloads _ done

end Bears

namespace Weathers

variable {I : Phase → World → Prop} {p : Phase} (hI : Weathers I)
include hI

theorem keeps_record (event : TraceEvent) : Keeps (I p) anything (record event) :=
  keeps_modify fun _ h => hI.beside h ⟨rfl⟩

theorem keeps_log (component : String) (level : LogLevel) (event : String)
    (fields : List (String × Value)) :
    Keeps (I p) anything (log component level event fields) :=
  keeps_modify fun _ h => hI.beside h ⟨rfl⟩

/-! Bodies. -/

theorem reclaimed (h : I p w) (hr : Reclaimed n w w') : I p w' := by
  rcases hr.scripts with hs | ⟨claims, hs⟩ <;> rw [hr.frame, hs]
  · exact hI.beside h ⟨rfl⟩
  · exact hI.beside (hI.amend ({ · with claims }) h fun _ => ⟨rfl, rfl⟩) ⟨rfl⟩

theorem keeps_scriptWatch (paths : List Path) : Keeps (I p) anything (scriptWatch n paths) :=
  fun w h => ⟨hI.reclaimed h (ends_scriptWatch n paths w).1, fun _ _ => trivial⟩

theorem keeps_scriptUnwatch (paths : List Path) : Keeps (I p) anything (scriptUnwatch n paths) :=
  fun w h => ⟨hI.reclaimed h (ends_scriptUnwatch n paths w).1, fun _ _ => trivial⟩

theorem keeps_depend (path : Path) : Keeps (I p) anything (depend n path) := by
  refine keeps_script fun w s h _ =>
    keeps_get_bind (fun w h => (keeps_any _).bind (fun form => ?_) w h) w h
  by_cases hp : form ≠ s.path
  · rw [if_pos hp]
    refine (keeps_any _).bind fun modified => ?_
    exact keeps_modify fun w h => hI.amend (·.addDependency _ modified) h fun _ => ⟨rfl, rfl⟩
  · rw [if_neg hp]
    exact keeps_pure _

/-- What an instance holds changes to what closes ordinarily, and the closings are reported. -/
theorem keeps_changeResources (change : ResourceRegistry → Option Failure × ResourceRegistry)
    (hc : ∀ r : ResourceRegistry, r.IsTame .thorough → r.Becomes .thorough (change r).2) :
    Keeps (I p) anything (do
      let s ← script n
      let (failure, resources) := change s.resources
      setResources n s.resources resources
      match failure with
      | some e => throw e
      | none => pure ()) := by
  refine keeps_script fun w s h hs => ?_
  have ht := hc s.resources ((hI.mild h).scripts s (List.mem_of_getElem? hs)).resources
  rcases hr : change s.resources with ⟨failure, resources⟩
  rw [hr] at ht
  have hset : Ends (I p) anything (setResources n s.resources resources w) :=
    Ends.bind (ends_ok (hI.allocate h hs ht)) fun _ => keeps_forM fun label _ => hI.keeps_record _
  refine hset.bind fun _ => ?_
  cases failure with
  | none => exact keeps_pure _
  | some e => exact keeps_raise e

theorem keeps_setExports (s : Script) (exports : ExportRegistry) :
    Keeps (I p) anything (setExports s exports) :=
  keeps_modify fun _ h => hI.beside h ⟨rfl⟩

theorem keeps_fetchExport (s : Script) (key : String) (default : Value) :
    Keeps (I p) anything (fetchExport s key default) :=
  (keeps_exportsOf s).bind fun _ => (hI.keeps_setExports s _).bind fun _ => keeps_any _

theorem keeps_putExport (s : Script) (key : String) (v : Value) :
    Keeps (I p) anything (putExport s key v) :=
  (keeps_exportsOf s).bind fun _ => hI.keeps_setExports s _

theorem keeps_edit {edit : World → Except Failure (FileTree FileContent)}
    (he : ∀ w, IsMild w → FileTree.Edits FileNode.IsMild w.files (edit w)) :
    Keeps (I p) anything (do
      let w ← get
      let files ← liftExcept (edit w)
      set { w with files }) := by
  refine keeps_get_bind fun w h => ?_
  have hends := he w (hI.mild h)
  rcases hr : edit w with e | files
  · exact keeps_raise e w h
  · rw [hr] at hends
    exact ends_ok (hI.edit h hends.1)

omit hI in
theorem keeps_named (ns : Namespace) (name method : String) :
    Keeps (I p) anything (hostObject ns name method) :=
  (keeps_hostObject ns name method).anything

section Running

variable (hh : ∀ request, Keeps (I .between) anything (host request))
include hh

/-- The case of every action, and an action that happens once by induction. -/
theorem keeps_runAction (action : Action) (ns : Namespace) (ha : action.IsMild) :
    Keeps (I .between) anything (runAction host n action ns) := by
  have hreports (event : TraceEvent) : Keeps (I .between) anything (do record event; return ns) :=
    (hI.keeps_record event).bind fun _ => keeps_pure ns
  induction action using Action.onceInduction generalizing ns with
  | step action ih =>
  cases action with
  | depend path =>
    exact (keeps_named ns _ _).bind fun _ => (hI.keeps_depend _).bind fun _ => keeps_pure ns
  | watch paths =>
    exact (keeps_named ns _ _).bind fun _ => (hI.keeps_scriptWatch _).bind fun _ => keeps_pure ns
  | unwatch paths =>
    exact (keeps_named ns _ _).bind fun _ => (hI.keeps_scriptUnwatch _).bind fun _ => keeps_pure ns
  | set name v => exact keeps_pure _
  | defer label failure =>
    have ht : (Resource.mk label failure []).IsTame .thorough := ⟨rfl, ha⟩
    refine (keeps_named ns _ _).bind fun _ => Keeps.bind ?_ fun _ => keeps_pure ns
    exact hI.keeps_changeResources (ResourceRegistry.defer _) fun _ h =>
      (ResourceRegistry.defer_tame ht h).1
  | close =>
    refine (keeps_named ns _ _).bind fun _ => Keeps.bind ?_ fun _ => keeps_pure ns
    exact hI.keeps_changeResources ResourceRegistry.close fun _ h =>
      (ResourceRegistry.close_tame h).1
  | trace label =>
    exact (keeps_readVariable _ ns).anything.bind fun name =>
      (keeps_readVariable _ ns).anything.bind fun path => hreports _
  | evaluate expression => exact (keeps_evaluate _ ns).anything.bind fun v => hreports _
  | directory =>
    refine (keeps_readVariable _ ns).anything.bind fun own => (keeps_named ns _ _).bind fun _ => ?_
    exact keeps_get_bind fun w h => hreports _ w h
  | paths => exact (keeps_named ns _ _).bind fun _ => keeps_script fun w s h _ => hreports _ w h
  | thread => exact keeps_get_bind fun w h => hreports _ w h
  | fetch key default =>
    refine (keeps_named ns _ _).bind fun _ => keeps_script fun w s h _ => ?_
    exact (hI.keeps_fetchExport s _ _).bind (fun v => hreports _) w h
  | put key v =>
    refine (keeps_named ns _ _).bind fun _ => keeps_script fun w s h _ => ?_
    exact (hI.keeps_putExport s _ _).bind (fun _ => keeps_pure ns) w h
  | drop key =>
    refine (keeps_named ns _ _).bind fun _ => keeps_script fun w s h _ => ?_
    exact (keeps_exportsOf s).bind (fun _ => (hI.keeps_setExports s _).bind fun _ => keeps_pure ns)
      w h
  | count key =>
    refine (keeps_named ns _ _).bind fun _ => keeps_script fun w s h _ => ?_
    refine (hI.keeps_fetchExport s _ _).bind (fun v => (keeps_any _).bind fun v => ?_) w h
    exact (hI.keeps_putExport s _ _).bind fun _ => keeps_pure ns
  | raise failure => exact keeps_raise failure
  | log method event fields =>
    refine (keeps_named ns _ _).bind fun _ => keeps_script fun w s h _ => ?_
    exact Keeps.bind (keeps_modify fun _ h => hI.beside h ⟨rfl⟩) (fun _ => keeps_pure ns) w h
  | once key action =>
    refine keeps_get_bind fun w h => ?_
    by_cases hk : w.met.contains key = true
    · rw [if_pos hk]
      exact keeps_pure ns w h
    · rw [if_neg hk]
      refine ih key action rfl ns ha (fun event => ?_) _ (hI.beside h ⟨rfl⟩)
      exact (hI.keeps_record event).bind fun _ => keeps_pure ns
  | host request => exact (hh request).bind fun a => hreports _
  | write path body =>
    have hc : (FileNode.file (FileContent.script body) writtenAt).IsMild := ha
    refine Keeps.bind (hI.keeps_edit fun w hw => ?_) fun _ => keeps_pure ns
    exact FileTree.edits_write hw.nodes trivial hc _
  | remove path =>
    exact Keeps.bind (hI.keeps_edit fun w hw => FileTree.edits_remove hw.nodes _) fun _ =>
      keeps_pure ns
  | malformed => exact keeps_pure ns

theorem keeps_runActions (body : List Action) (ns : Namespace) (hb : Action.AreMild body) :
    Keeps (I .between) anything (runActions host n body ns) := by
  induction body generalizing ns with
  | nil => exact keeps_pure ns
  | cons action rest ih => exact (hI.keeps_runAction hh action ns hb.1).bind fun ns => ih ns hb.2

theorem keeps_execute : Keeps (I .between) anything (execute host n) := by
  refine keeps_script fun w s h _ => keeps_get_bind (fun w h => ?_) w h
  refine (hI.keeps_record _).bind
    (fun _ => Keeps.bind (keeps_attempting fun w h => ?_) fun result => ?_) w h
  · rcases loadBody_eq s w with hb | ⟨e, hb, -⟩
    · rw [bind_of_ok hb]
      exact hI.keeps_runActions hh _ _ (mild_bodyOf (hI.mild h) s.path) w h
    · rw [bind_of_error hb]
      exact ends_error h trivial
  · cases result with
    | ok ns => exact keeps_modify fun _ h => hI.beside h ⟨rfl⟩
    | error e => exact keeps_raise _

theorem keeps_runLaunched (s : Script) : Keeps (I .between) anything (runLaunched host n s) := by
  refine Keeps.bind (keeps_attempting (hI.keeps_execute hh)) fun result => ?_
  cases result with
  | ok _ => exact keeps_pure _
  | error e =>
    have hkept : Keeps (I .between) anything (updateScript n ({ · with error := some e })) :=
      keeps_modify fun _ h => hI.amend ({ · with error := some e }) h fun _ => ⟨rfl, rfl⟩
    exact hkept.bind fun _ => hI.keeps_log _ _ _ _

theorem keeps_run : Keeps (I .between) anything (run host n) := by
  intro w h
  rcases hs : w.script? n with _ | s
  · rw [run, bind_of_error (script_of_none hs)]
    exact ends_error h trivial
  · by_cases hc : s.state = .created
    · rw [run_of_created hs hc]
      exact hI.keeps_runLaunched hh s _ (hI.launch h hs hc)
    · rw [run, bind_of_ok (script_of_some hs), if_pos hc]
      exact hI.keeps_log _ _ _ _ w h

theorem keeps_runListed : Keeps (I .between) anything (runListed host n) := by
  refine keeps_script fun w s h _ => ?_
  refine Ends.bind (keeps_attempting (hI.keeps_run hh) w h) fun result => ?_
  cases result with
  | ok _ => exact keeps_pure _
  | error e => exact hI.keeps_log _ _ _ _

end Running

/-! Terminations. -/

theorem ends_terminate {E : Failure → Prop} (h : I p w) (hs : w.script? n = some s) :
    Ends (I p) E (terminate n w) := by
  by_cases ho : s.isOver = true
  · rw [terminate, bind_of_ok (script_of_some hs), if_pos ho]
    exact ends_ok h
  · have hover := Bool.eq_false_iff.mpr ho
    have hm := (hI.mild h).scripts s (List.mem_of_getElem? hs)
    exact (ends_thorough id hm.resources hs hover).imp fun w' h' => hI.ended h hs hover h'

theorem keeps_endListed : Keeps (I p) anything (endListed n) := by
  refine keeps_script fun w s h hs => ?_
  refine Ends.bind (ends_attempting (hI.ends_terminate h hs)) fun result => ?_
  rcases result with e | _ | _
  · exact hI.keeps_log _ _ _ _
  · exact hI.keeps_log _ _ _ _
  · exact keeps_pure _

/-- Terminating everything raises nothing. -/
theorem keeps_terminateAll {E : Failure → Prop} : Keeps (I p) E terminateAll := by
  refine keeps_get_bind fun w h => ?_
  rw [set_bind]
  refine keeps_foldlM (fun failures entry _ w h => ?_) 0 _ (hI.beside h ⟨rfl⟩)
  have hend : Ends (I p) Ordinary (terminate entry.2 w) := by
    rcases hs : w.script? entry.2 with _ | s
    · rw [terminate, bind_of_error (script_of_none hs)]
      refine ends_error h ?_
      rfl
    · exact hI.ends_terminate h hs
  refine Ends.bind (ends_attempt hend fun _ he => Or.inl he) fun result => ?_
  rcases result with e | _ | _
  · exact Keeps.bind (keeps_modify fun _ h => hI.beside h ⟨rfl⟩) fun _ => keeps_pure _
  · exact keeps_pure _
  · exact keeps_pure _

/-! What the host does, for scripts that may ask it anything. -/

/-- A cycle of an open host leaves it open. -/
theorem bears : Bears fun w => I .amid w ∧ w.isClosed = false where
  booked h hb := ⟨hI.beside h.1 hb.beside, by rw [hb.frame]; exact h.2⟩
  make h hs hc := ⟨hI.make h.1 hs hc, h.2⟩
  feed h hx := ⟨hI.feed h.1 hx, h.2⟩
  tend h hx ha := ⟨hI.tend h.1 hx ha, h.2⟩

theorem ends_cycle (h : I .between w) (ho : w.isClosed = false) :
    Ends (I .between) anything (cycle w) :=
  (hI.bears.keeps_cycle w ⟨hI.enter h, ho⟩).imp fun _ h' => hI.leave h'.1 h'.2

theorem keeps_stopWatch (w : World) (h : I .amid w) : Ends (I .between) anything (stopWatch w) := by
  rw [stopWatch, get_bind]
  rcases hx : w.watch with _ | d | d
  · exact ends_ok (hI.settle h fun d hd => by rw [hx] at hd; cases hd)
  · exact ⟨hI.settle (hI.feed h hx) fun d hd => (by cases hd), fun _ _ => trivial⟩
  · have hstop : d.IsAttended → _ := fun ha => (DirectoryWatch.ends_stop (r := { watch := d }) ha).1
    exact ⟨hI.beside (hI.stop h hx hstop) ⟨rfl⟩, fun _ _ => trivial⟩

section Hosts

variable (hh : ∀ request, Keeps (I .between) anything (host request))
include hh

theorem keeps_commit (c : Commit) : Keeps (I .between) anything (commit host c) := by
  rw [commit_eq_loops]
  exact (keeps_forM fun n _ => hI.keeps_runListed hh).bind fun _ =>
    keeps_forM fun n _ => hI.keeps_endListed

theorem keeps_submit (c : Commit) : Keeps (I .between) anything (submit host c) := by
  refine keeps_get_bind fun w h => ?_
  have henqueue : Ends (I .between) anything (enqueue c w) := ends_ok (hI.beside h ⟨rfl⟩)
  rcases w.executor with _ | ⟨_ | e⟩ | _ | ⟨_ | _⟩ | ⟨_ | _⟩
  · exact hI.keeps_commit hh c w h
  · exact hI.keeps_commit hh c w h
  · exact keeps_raise e w h
  · exact henqueue
  · exact henqueue
  · exact keeps_raise _ w h
  · exact henqueue
  · exact keeps_raise _ w h

theorem keeps_reconcile : Keeps (I .between) anything (reconcile host) := by
  refine keeps_get_bind fun w h => ?_
  by_cases ho : w.isClosed = true
  · rw [if_pos ho]
    exact keeps_pure _ w h
  · rw [if_neg ho]
    refine (hI.ends_cycle h (Bool.eq_false_iff.mpr ho)).bind fun done => ?_
    dsimp only
    split
    · refine (keeps_attempting (hI.keeps_submit hh _)).bind fun result => ?_
      cases result with
      | ok _ => exact keeps_pure _
      | error e =>
        exact (hI.keeps_log _ _ _ _).bind fun _ => (hI.keeps_commit hh _).bind fun _ => keeps_pure _
    · exact keeps_pure _

theorem keeps_preloadCycles (left cycles : Nat) :
    Keeps (I .between) anything (preloadCycles host left cycles) := by
  induction left generalizing cycles with
  | zero => exact keeps_pure _
  | succ left ih =>
    refine keeps_get_bind fun w h => ?_
    by_cases ho : w.isClosed = true
    · rw [if_pos ho]
      exact keeps_pure _ w h
    · rw [if_neg ho, get_bind]
      refine (hI.ends_cycle h (Bool.eq_false_iff.mpr ho)).bind fun done => ?_
      refine (hI.keeps_commit hh _).bind fun _ => keeps_get_bind fun w' h' => ?_
      split
      · exact keeps_pure _ w' h'
      · exact ih _ w' h'

theorem keeps_preload : Keeps (I .between) anything (preload host) :=
  keeps_preloading hI.keeps_log fun left => hI.keeps_preloadCycles hh left 0

theorem keeps_pollRound : Keeps (I .between) anything (pollRound host) := by
  refine (keeps_attempting (hI.keeps_reconcile hh)).bind fun result => ?_
  cases result with
  | ok _ => exact keeps_pure _
  | error e => exact hI.keeps_log _ _ _ _

theorem keeps_runPooled (c : Commit) : Keeps (I .between) anything (runPooled host c) := by
  refine keeps_get_bind fun w h =>
    Keeps.bind (keeps_modify fun _ h => hI.beside h ⟨rfl⟩) (fun _ => ?_) w h
  exact (keeps_attempting (hI.keeps_commit hh c)).bind fun _ =>
    keeps_modify fun _ h => hI.beside h ⟨rfl⟩

theorem keeps_runLooped (c : Commit) : Keeps (I .between) anything (runLooped host c) :=
  (keeps_attempting (hI.keeps_commit hh c)).bind fun _ => keeps_pure _

theorem keeps_drainPool : Keeps (I .between) anything (drainPool host) := by
  have hdrain (fuel : Nat) : Keeps (I .between) anything (drainWith (runPooled host) fuel) := by
    induction fuel with
    | zero => exact keeps_pure _
    | succ fuel ih =>
      refine keeps_get_bind fun w h => ?_
      cases w.tasks with
      | nil => exact keeps_pure _ w h
      | cons c rest =>
        exact (hI.keeps_runPooled hh c).bind (fun _ => ih)
          { w with tasks := rest } (hI.beside h ⟨rfl⟩)
  exact keeps_get_bind fun w h => hdrain _ w h

theorem keeps_closePool : Keeps (I .between) anything (closePool host) := by
  refine keeps_get_bind fun w h => ?_
  rcases hx : w.executor with _ | _ | _ | isClosed | isClosed
  case pool =>
    have hretired : Ends (I .between) anything
        ((modify fun w => { w with executor := .pool true } : Act Unit) w) :=
          ends_ok (hI.retire h hx)
    refine hretired.bind fun _ => keeps_get_bind fun w h => ?_
    split
    · exact keeps_raise _ w h
    · exact hI.keeps_drainPool hh w h
  all_goals exact keeps_pure _ w h

omit hh in
theorem keeps_stopPolling : Keeps (I .between) anything stopPolling := by
  refine keeps_get_bind fun w h => ?_
  have hidled : I .between w.idled := hI.beside h ⟨rfl⟩
  rw [set_bind]
  cases w.joinFault? with
  | none => exact ends_ok hidled
  | some e => exact ends_error hidled trivial

theorem keeps_shutdown : Keeps (I .between) anything (shutdown host) := by
  refine hI.keeps_stopPolling.bind fun _ => (hI.keeps_closePool hh).bind fun _ => ?_
  refine keeps_get_bind fun w h => ?_
  split
  · have hclosed : I .amid { w with isClosed := true } := hI.close (hI.enter h)
    rw [modify_bind, get_bind]
    refine (hI.keeps_terminateAll (E := fun _ => False) _ hclosed).andThen fun failures w' h' => ?_
    rw [modify_bind]
    exact Ends.bind (hI.keeps_stopWatch _ (hI.beside h' ⟨rfl⟩)) fun _ => hI.keeps_log _ _ _ _
  · exact keeps_pure _ w h

omit hh in
theorem keeps_start : Keeps (I .between) anything start := by
  refine keeps_get_bind fun w h => ?_
  split
  · exact keeps_raise _ w h
  · split
    · refine keeps_get_bind (fun w h => ?_) w h
      have hpolling : I .between { w with isPolling := true, isStranded := w.lacksThreads } :=
        hI.beside h ⟨rfl⟩
      rw [set_bind]
      split
      · exact ends_error hpolling trivial
      · exact hI.keeps_log _ _ _ _ _ hpolling
    · exact keeps_pure _ w h

theorem keeps_answer (request : HostRequest) :
    Keeps (I .between) anything (answer host request) := by
  have hclaims (w : World) (operator : ScopedClaims) (claims : ClaimCounts) (h : I .between w) :
      I .between { w with operator, claims } := hI.beside h ⟨rfl⟩
  cases request with
  | reconcile => exact (hI.keeps_reconcile hh).bind fun _ => keeps_pure _
  | preload => exact (hI.keeps_preload hh).bind fun _ => keeps_pure _
  | start => exact hI.keeps_start.bind fun _ => keeps_pure _
  | shutdown => exact (hI.keeps_shutdown hh).bind fun _ => keeps_pure _
  | watch paths => exact (keeps_watchPaths hclaims _).anything.bind fun _ => keeps_pure _
  | unwatch paths => exact (keeps_unwatchPaths hclaims _).anything.bind fun _ => keeps_pure _
  | event path kind =>
    exact Keeps.bind (keeps_pushEvent fun _ _ h hx => hI.feed h hx) fun _ => keeps_pure _

end Hosts

/-- Whatever is asked of the host is weathered, however deep the requests of
its scripts are nested. -/
theorem keeps_hostAt (depth : Nat) (request : HostRequest) :
    Keeps (I .between) anything (hostAt depth request) := by
  induction depth generalizing request with
  | zero => exact keeps_raise _
  | succ depth ih => exact hI.keeps_answer ih request

end Weathers

end World

end HotReload
