import HotReload.Host.Lifecycle
import HotReload.Proofs.Host.Actions
import HotReload.Proofs.Host.Planning
import HotReload.Proofs.Watch.Faults

/-!
# Worlds that a host takes for one another

A likeness of worlds that differ in the watch and in the journal is respected by whatever the host
and its scripts do, if looking after the watch respects it: nothing else reads either of them.
-/
namespace HotReload.World

open Operation

/-- A world with another watch and another journal. -/
def withWatch (w : World) (x : Option Watch) (isStarted : Bool) (j : Journal) : World :=
  { w with watch := x, watchStarted := isStarted, journal := j }

/-- Whether something is read from neither the watch nor the journal. -/
def Overlooks {β : Type _} (f : World → β) : Prop := ∀ w x b j, f (w.withWatch x b j) = f w

/-- Whether a change concerns neither the watch nor the journal. -/
def Spares (g : World → World) : Prop := ∀ w x b j, g (w.withWatch x b j) = (g w).withWatch x b j

theorem Spares.kept {g : World → World} (h : Spares g) (w : World) :
    (g w).watch = w.watch ∧ (g w).watchStarted = w.watchStarted ∧ (g w).journal = w.journal := by
  have hw : g w = (g w).withWatch w.watch w.watchStarted w.journal :=
    h w w.watch w.watchStarted w.journal
  rw [hw]
  exact ⟨rfl, rfl, rfl⟩

/-- Whether worlds that are alike differ in the watch and in the journal alone, stay alike when the
same is changed or noted in them, and are looked after alike. -/
structure Likens (R : World → World → Prop) : Prop where
  frame : ∀ {w w'}, R w w' → w' = w.withWatch w'.watch w'.watchStarted w'.journal
  edit : ∀ {g w w'}, Spares g → R w w' → R (g w) (g w')
  note : ∀ {f : Journal → Journal} {w w'},
    (∀ j k : Journal, j.aside = k.aside → (f j).aside = (f k).aside) →
    R w w' → R { w with journal := f w.journal } { w' with journal := f w'.journal }
  ensureWatch : Respects R ensureWatch
  pollChanges : Respects R pollChanges
  rearmWatch : Respects R rearmWatch
  stopWatch : Respects R stopWatch
  pushEvent : ∀ path kind, Respects R (pushEvent path kind)

variable {R : World → World → Prop} {n : Nat} {α : Type} {host : HostRequest → Act HostAnswer}

theorem respects_liftExcept (result : Except Failure α) : Respects R (liftExcept result) := by
  cases result with
  | ok x => exact respects_pure x
  | error e => exact respects_throw e

theorem respects_attempt {handles : Failure → Bool} {act : Act α} (h : Respects R act) :
    Respects R (World.attempt handles act) := by
  rw [World.attempt_eq]
  exact fun w w' hw => (h w w' hw).attempt

theorem respects_hostObject (ns : Namespace) (name method : String) :
    Respects R (hostObject ns name method) := by
  unfold hostObject
  split
  · exact respects_pure _
  · exact respects_throw _

namespace Likens

variable (hR : Likens R)
include hR

/-! Reading and noting. -/

/-- An operation that reads neither the watch nor the journal. -/
theorem respects_reading {f : World → Act α} (hf : Overlooks f)
    (h : ∀ w, Respects R (f w)) : Respects R ((get : Act World) >>= f) := fun w w' hw => by
  have hsame : f w' = f w := by rw [hR.frame hw, hf]
  rw [get_bind, get_bind, hsame]
  exact h w w w' hw

/-- A choice that depends neither on the watch nor on the journal. -/
theorem respects_choice {c : World → Prop} [∀ w, Decidable (c w)] {f g : World → Act α}
    (hc : Overlooks c) (hf : Respects R ((get : Act World) >>= f))
    (hg : Respects R ((get : Act World) >>= g)) :
    Respects R ((get : Act World) >>= fun w => if c w then f w else g w) := fun w w' hw => by
  have hsame : c w' ↔ c w := by rw [hR.frame hw, hc]
  rw [get_bind, get_bind]
  by_cases h : c w
  · rw [if_pos h, if_pos (hsame.mpr h)]
    exact hf w w' hw
  · rw [if_neg h, if_neg (mt hsame.mp h)]
    exact hg w w' hw

theorem respects_edit {g : World → World} (hg : Spares g) :
    Respects R (modify g : Act PUnit) := respects_modify fun _ _ h => hR.edit hg h

/-- A change after which what was read before it is used. -/
theorem respects_setting {g : World → World} {f : World → Act α}
    (hg : Spares g) (hf : Overlooks f)
    (h : ∀ w, Respects R (f w)) :
    Respects R (do
      let w ← get
      set (g w)
      f w) := fun w w' hw => by
  have hsame : f w' = f w := by rw [hR.frame hw, hf]
  rw [get_bind, get_bind, set_bind, set_bind, hsame]
  exact h w _ _ (hR.edit hg hw)

theorem respects_record (event : TraceEvent) : Respects R (record event) :=
  respects_modify fun _ _ h =>
    hR.note (fun j k hjk => by rw [Journal.aside_record, Journal.aside_record, hjk]) h

theorem respects_enter (entry : LogEntry) : Respects R (enter entry) :=
  respects_modify fun _ _ h =>
    hR.note (fun j k hjk => by rw [Journal.aside_enter, Journal.aside_enter, hjk]) h

theorem respects_log (component : String) (level : LogLevel) (event : String)
    (fields : List (String × Value)) :
    Respects R (log component level event fields) :=
  hR.respects_enter _

theorem respects_script : Respects R (script n) := by
  refine hR.respects_reading (fun _ _ _ _ => rfl) fun w => ?_
  cases w.script? n with
  | none => exact respects_throw _
  | some s => exact respects_pure s

theorem respects_updateScript (n : Nat) (f : Script → Script) : Respects R (updateScript n f) :=
  hR.respects_edit fun _ _ _ _ => rfl

/-! Claims. -/

theorem respects_checkForms (paths : List Path) : Respects R (checkForms paths) := by
  refine hR.respects_reading (fun _ _ _ _ => rfl) fun w => ?_
  cases w.circleAmong? paths with
  | none => exact respects_pure _
  | some e => exact respects_throw e

theorem respects_claimAll (paths : List Path) : Respects R (claimAll paths) :=
  (hR.respects_edit fun _ _ _ _ => rfl).bind fun _ => hR.respects_checkForms paths

theorem respects_releaseAll (paths : List Path) : Respects R (releaseAll paths) :=
  (hR.respects_edit fun _ _ _ _ => rfl).bind fun _ => hR.respects_checkForms paths

theorem respects_request (r : ClaimRequest) : Respects R (request r) := by
  refine hR.respects_reading (fun _ _ _ _ => rfl) fun w => ?_
  rcases w.claimTarget with _ | ⟨refusesWatch, refusesUnwatch⟩ <;> cases r
  · exact hR.respects_claimAll _
  · exact hR.respects_releaseAll _
  all_goals
    refine (hR.respects_record _).bind fun _ => ?_
    split
    · exact respects_throw _
    · exact respects_pure _

theorem respects_requestAny (r : Option ClaimRequest) : Respects R (requestAny r) := by
  cases r with
  | none => exact respects_pure _
  | some r => exact hR.respects_request r

theorem respects_scriptWatch (paths : List Path) : Respects R (scriptWatch n paths) :=
  hR.respects_script.bind fun _ => hR.respects_reading (fun _ _ _ _ => rfl) fun _ =>
    (respects_liftExcept _).bind fun _ =>
      (hR.respects_updateScript n _).bind fun _ => hR.respects_requestAny _

theorem respects_scriptUnwatch (paths : List Path) : Respects R (scriptUnwatch n paths) :=
  hR.respects_script.bind fun _ => hR.respects_reading (fun _ _ _ _ => rfl) fun _ =>
    (respects_liftExcept _).bind fun _ =>
      (hR.respects_updateScript n _).bind fun _ => hR.respects_requestAny _

theorem respects_watchPaths (paths : List Path) : Respects R (watchPaths paths) :=
  hR.respects_reading (fun _ _ _ _ => rfl) fun _ => (respects_liftExcept _).bind fun _ =>
    hR.respects_setting (fun _ _ _ _ => rfl) (fun _ _ _ _ => rfl) fun _ => hR.respects_claimAll _

theorem respects_operatorUnwatch (paths : List Path) : Respects R (operatorUnwatch paths) :=
  hR.respects_reading (fun _ _ _ _ => rfl) fun _ => (respects_liftExcept _).bind fun _ =>
    hR.respects_setting (fun _ _ _ _ => rfl) (fun _ _ _ _ => rfl) fun _ => hR.respects_releaseAll _

theorem respects_unwatchPaths (paths : List Path) : Respects R (unwatchPaths paths) :=
  hR.respects_reading (fun _ _ _ _ => rfl) fun _ => (respects_liftExcept _).bind fun _ =>
    (hR.respects_operatorUnwatch _).bind fun _ => hR.respects_releaseAll _

/-! Bodies. -/

theorem respects_readVariable (name : String) (ns : Namespace) :
    Respects R (readVariable name ns) := by
  unfold readVariable
  split
  · exact respects_pure _
  · split
    · exact hR.respects_reading (fun _ _ _ _ => rfl) fun _ => respects_pure _
    · exact respects_throw _

theorem respects_evaluate (expression : String) (ns : Namespace) :
    Respects R (evaluate expression ns) := by
  unfold evaluate
  split
  · exact respects_pure _
  · refine (hR.respects_readVariable _ _).bind fun v => respects_foldlM (fun v name => ?_) v
    exact (hR.respects_readVariable _ _).bind fun v' => respects_liftExcept _

theorem respects_exportsOf (s : Script) : Respects R (exportsOf s) :=
  hR.respects_reading (fun _ _ _ _ => rfl) fun _ => respects_pure _

theorem respects_setExports (s : Script) (exports : ExportRegistry) :
    Respects R (setExports s exports) :=
  hR.respects_edit fun _ _ _ _ => rfl

theorem respects_fetchExport (s : Script) (key : String) (default : Value) :
    Respects R (fetchExport s key default) :=
  (hR.respects_exportsOf s).bind fun _ =>
    (hR.respects_setExports s _).bind fun _ => respects_liftExcept _

theorem respects_putExport (s : Script) (key : String) (v : Value) :
    Respects R (putExport s key v) :=
  (hR.respects_exportsOf s).bind fun _ => hR.respects_setExports s _

theorem respects_depend (path : Path) : Respects R (depend n path) := by
  refine hR.respects_script.bind fun s => hR.respects_reading (fun _ _ _ _ => rfl) fun w =>
    (respects_liftExcept _).bind fun form => ?_
  split
  · exact (respects_liftExcept _).bind fun modified => hR.respects_updateScript n _
  · exact respects_pure _

theorem respects_setResources (before after : ResourceRegistry) :
    Respects R (setResources n before after) :=
  (hR.respects_updateScript n _).bind fun _ => respects_forM fun _ => hR.respects_record _

/-- What changes the resources of an instance and raises what that raises. -/
theorem respects_changeResources (change : ResourceRegistry → Option Failure × ResourceRegistry) :
    Respects R (do
      let s ← script n
      let (failure, resources) := change s.resources
      setResources n s.resources resources
      match failure with
      | some e => throw e
      | none => pure ()) := by
  refine hR.respects_script.bind fun s => ?_
  rcases change s.resources with ⟨_ | e, resources⟩
  · exact (hR.respects_setResources _ _).bind fun _ => respects_pure _
  · exact (hR.respects_setResources _ _).bind fun _ => respects_throw e

/-- An edit of the files, as the host's files and places allow it. -/
theorem respects_editFiles {edit : World → Except Failure (FileTree FileContent)}
    (he : Overlooks edit) :
    Respects R (do
      let w ← get
      let files ← liftExcept (edit w)
      set { w with files }) := by
  refine respects_get_bind fun w w' h => ?_
  have hedit : edit w' = edit w := by rw [hR.frame h, he]
  rw [hedit]
  exact (respects_liftExcept _ w w' h).bind fun files _ _ _ =>
    ⟨rfl, hR.edit (g := fun w => { w with files }) (fun _ _ _ _ => rfl) h⟩

section Running

variable (hh : ∀ request, Respects R (host request))
include hh

/-- The case of every action, and an action that happens once by induction. -/
theorem respects_runAction (action : Action) (ns : Namespace) :
    Respects R (runAction host n action ns) := by
  have hnamed (name method : String) : Respects R (hostObject ns name method) :=
    respects_hostObject ns name method
  have hvariable (name : String) : Respects R (readVariable name ns) :=
    hR.respects_readVariable name ns
  have hreports (event : TraceEvent) : Respects R (do record event; return ns) :=
    (hR.respects_record event).bind fun _ => respects_pure ns
  induction action using Action.onceInduction with
  | step action ih =>
  cases action with
  | depend path =>
    exact (hnamed _ _).bind fun _ => (hR.respects_depend _).bind fun _ => respects_pure ns
  | watch paths =>
    exact (hnamed _ _).bind fun _ => (hR.respects_scriptWatch _).bind fun _ => respects_pure ns
  | unwatch paths =>
    exact (hnamed _ _).bind fun _ => (hR.respects_scriptUnwatch _).bind fun _ => respects_pure ns
  | set name v => exact respects_pure _
  | defer label failure =>
    exact (hnamed _ _).bind fun _ =>
      (hR.respects_changeResources (ResourceRegistry.defer _)).bind fun _ => respects_pure ns
  | close =>
    exact (hnamed _ _).bind fun _ =>
      (hR.respects_changeResources ResourceRegistry.close).bind fun _ => respects_pure ns
  | trace label => exact (hvariable _).bind fun name => (hvariable _).bind fun path => hreports _
  | evaluate expression => exact (hR.respects_evaluate _ ns).bind fun v => hreports _
  | directory =>
    exact (hvariable _).bind fun own => (hnamed _ _).bind fun _ =>
      hR.respects_reading (fun _ _ _ _ => rfl) fun _ => hreports _
  | paths => exact (hnamed _ _).bind fun _ => hR.respects_script.bind fun s => hreports _
  | thread => exact hR.respects_reading (fun _ _ _ _ => rfl) fun _ => hreports _
  | fetch key default =>
    exact (hnamed _ _).bind fun _ => hR.respects_script.bind fun s =>
      (hR.respects_fetchExport s _ _).bind fun v => hreports _
  | put key v =>
    exact (hnamed _ _).bind fun _ => hR.respects_script.bind fun s =>
      (hR.respects_putExport s _ _).bind fun _ => respects_pure ns
  | drop key =>
    exact (hnamed _ _).bind fun _ => hR.respects_script.bind fun s =>
      (hR.respects_exportsOf s).bind fun _ =>
        (hR.respects_setExports s _).bind fun _ => respects_pure ns
  | count key =>
    refine (hnamed _ _).bind fun _ =>
      hR.respects_script.bind fun s => (hR.respects_fetchExport s _ _).bind fun v => ?_
    exact (respects_liftExcept _).bind fun v =>
      (hR.respects_putExport s _ _).bind fun _ => respects_pure ns
  | raise failure => exact respects_throw failure
  | log method event fields =>
    exact (hnamed _ _).bind fun _ => hR.respects_script.bind fun s =>
      (hR.respects_enter _).bind fun _ => respects_pure ns
  | once key action =>
    refine hR.respects_choice (fun _ _ _ _ => rfl)
      (hR.respects_reading (fun _ _ _ _ => rfl) fun _ => respects_pure ns) ?_
    exact hR.respects_setting (fun _ _ _ _ => rfl) (fun _ _ _ _ => rfl) fun _ => ih key action rfl
  | host request => exact (hh request).bind fun a => hreports _
  | write path body =>
    exact (hR.respects_editFiles fun _ _ _ _ => rfl).bind fun _ => respects_pure ns
  | remove path => exact (hR.respects_editFiles fun _ _ _ _ => rfl).bind fun _ => respects_pure ns
  | malformed => exact respects_pure ns

theorem respects_runActions (body : List Action) (ns : Namespace) :
    Respects R (runActions host n body ns) := by
  induction body generalizing ns with
  | nil => exact respects_pure ns
  | cons action rest ih => exact (hR.respects_runAction hh action ns).bind fun ns => ih ns

omit hh in
theorem respects_loadBody (s : Script) : Respects R (loadBody s) := by
  refine hR.respects_reading (fun _ _ _ _ => rfl) fun w => ?_
  dsimp only
  split
  · split
    · exact respects_throw _
    · exact respects_pure _
  · exact respects_pure _
  · exact respects_throw _
  · exact respects_throw _

theorem respects_execute : Respects R (execute host n) := by
  refine hR.respects_script.bind fun s => hR.respects_reading (fun _ _ _ _ => rfl) fun w => ?_
  refine (hR.respects_record _).bind fun _ => ?_
  refine (respects_attempt ((hR.respects_loadBody s).bind fun body => ?_)).bind fun result => ?_
  · exact hR.respects_runActions hh body _
  cases result with
  | ok ns => exact hR.respects_edit fun _ _ _ _ => rfl
  | error e => exact respects_throw _

theorem respects_run : Respects R (run host n) := by
  refine hR.respects_script.bind fun s => ?_
  split
  · exact hR.respects_log _ _ _ _
  · refine (hR.respects_updateScript n _).bind fun _ => ?_
    refine (respects_attempt (hR.respects_execute hh)).bind fun result => ?_
    cases result with
    | ok _ => exact respects_pure _
    | error e => exact (hR.respects_updateScript n _).bind fun _ => hR.respects_log _ _ _ _

end Running

/-! Terminations. -/

theorem respects_cleanly {action : Act Unit} (ha : Respects R action) (event : String)
    (path : Path) :
    Respects R (cleanly event path action) := by
  refine (respects_attempt ha).bind fun result => ?_
  cases result with
  | ok _ => exact respects_pure _
  | error e => exact (hR.respects_log _ _ _ _).bind fun _ => respects_pure _

theorem respects_closeSilently : Respects R (closeSilently n) := by
  refine hR.respects_script.bind fun s => ?_
  rcases s.resources.closeHeld with ⟨result, resources⟩
  refine (hR.respects_setResources _ _).bind fun _ => (respects_liftExcept _).bind fun errors => ?_
  exact (respects_forM fun _ => hR.respects_log _ _ _ _).bind fun _ => respects_pure _

theorem respects_releaseContext : Respects R (releaseContext n) := by
  refine hR.respects_script.bind fun s => (hR.respects_record _).bind fun _ => ?_
  refine Respects.bind (hR.respects_edit fun _ _ _ _ => rfl) fun _ => ?_
  refine hR.respects_reading (fun _ _ _ _ => rfl) fun w => ?_
  split
  · exact respects_throw _
  · exact respects_pure _

theorem respects_terminate : Respects R (terminate n) := by
  refine hR.respects_script.bind fun s => ?_
  split
  · exact respects_pure _
  · have hunwatch : Respects R (scriptUnwatchAll n) :=
      hR.respects_script.bind fun _ => hR.respects_scriptUnwatch _
    refine (hR.respects_updateScript n _).bind fun _ =>
      (hR.respects_cleanly hunwatch _ _).bind fun unwatched => ?_
    refine hR.respects_closeSilently.bind fun closed => hR.respects_script.bind fun s => ?_
    have hreleased (released : Bool) : Respects R (do
        updateScript n ({ · with state := .terminated })
        return unwatched && closed && released) :=
          (hR.respects_updateScript n _).bind fun _ => respects_pure _
    split
    · exact (hR.respects_cleanly hR.respects_releaseContext _ _).bind hreleased
    · exact Respects.bind (respects_pure true) hreleased

theorem respects_terminateAll : Respects R terminateAll := by
  refine hR.respects_setting (fun _ _ _ _ => rfl) (fun _ _ _ _ => rfl) fun w => ?_
  refine respects_foldlM (fun failures entry => ?_) 0
  refine (respects_attempt hR.respects_terminate).bind fun result => ?_
  rcases result with e | _ | _
  · exact (hR.respects_log _ _ _ _).bind fun _ => respects_pure _
  · exact respects_pure _
  · exact respects_pure _

/-! Cycles. -/

theorem respects_watchedFiles : Respects R watchedFiles :=
  hR.respects_reading (fun _ _ _ _ => rfl) fun _ => respects_mapM fun path =>
    (respects_liftExcept _).bind fun isFile => respects_pure (path, isFile)

theorem respects_planCycle : Respects R planCycle :=
  hR.ensureWatch.bind fun _ => hR.respects_watchedFiles.bind fun _ => hR.pollChanges.bind fun _ =>
    hR.rearmWatch.bind fun _ => hR.respects_reading (fun _ _ _ _ => rfl) fun _ => respects_pure _

theorem respects_registerNew (path : Path) : Respects R (registerNew path) := by
  have hnew : Respects R (newScript path) := by
    refine respects_get_bind fun w w' h => ?_
    have hsame : w'.modified? path = w.modified? path ∧ w'.scripts.length = w.scripts.length := by
      rw [hR.frame h]
      exact ⟨rfl, rfl⟩
    rw [hsame.1]
    refine (respects_liftExcept _ w w' h).bind fun modified _ _ _ => ?_
    rw [set_bind, set_bind, hsame.2]
    exact ⟨rfl, hR.edit (g := fun w =>
      { w with
        scripts := w.scripts ++ [{ Script.create path modified with bindings := w.bindings }] })
      (fun _ _ _ _ => rfl) h⟩
  exact hnew.bind fun n =>
    Respects.bind (hR.respects_edit fun _ _ _ _ => rfl) fun _ => respects_pure n

theorem respects_applyReloads (queue : List Path) (done : Applied) :
    Respects R (applyReloads queue done) := by
  induction queue generalizing done with
  | nil => exact respects_pure done
  | cons p rest ih =>
    refine hR.respects_reading (fun _ _ _ _ => rfl) fun w => ?_
    cases w.registry.get? p with
    | none => exact ih done
    | some old =>
      exact (hR.respects_registerNew p).bind fun n => (hR.respects_log _ _ _ _).bind fun _ => ih _

theorem respects_applyLoads (paths : List Path) (done : Applied) :
    Respects R (applyLoads paths done) := by
  induction paths generalizing done with
  | nil => exact respects_pure done
  | cons p rest ih =>
    refine hR.respects_reading (fun _ _ _ _ => rfl) fun w => ?_
    cases w.registry.get? p with
    | some _ => exact ih done
    | none =>
      exact (hR.respects_registerNew p).bind fun n => (hR.respects_log _ _ _ _).bind fun _ => ih _

theorem respects_applyUnloads (entries : List (Path × Nat)) (done : Applied) :
    Respects R (applyUnloads entries done) := by
  induction entries generalizing done with
  | nil => exact respects_pure done
  | cons entry rest ih =>
    exact Respects.bind (hR.respects_edit fun _ _ _ _ => rfl) fun _ =>
      (hR.respects_log _ _ _ _).bind fun _ => ih _

theorem respects_cycle : Respects R cycle :=
  hR.respects_planCycle.bind fun _ => (hR.respects_applyReloads _ _).bind fun done =>
    (hR.respects_applyLoads _ done).bind fun done => hR.respects_applyUnloads _ done

/-! The host. -/

theorem respects_startPolling : Respects R startPolling := by
  refine hR.respects_setting (fun _ _ _ _ => rfl) (fun _ _ _ _ => rfl) fun w => ?_
  split
  · exact respects_throw _
  · exact hR.respects_log _ _ _ _

theorem respects_start : Respects R start := by
  refine hR.respects_choice (fun _ _ _ _ => rfl) ?_ ?_
  · exact hR.respects_reading (fun _ _ _ _ => rfl) fun _ => respects_throw _
  · refine hR.respects_choice (fun _ _ _ _ => rfl) ?_ ?_
    · exact hR.respects_reading (fun _ _ _ _ => rfl) fun _ => hR.respects_startPolling
    · exact hR.respects_reading (fun _ _ _ _ => rfl) fun _ => respects_pure _

section Hosts

variable (hh : ∀ request, Respects R (host request))
include hh

theorem respects_commit (c : Commit) : Respects R (commit host c) := by
  refine (respects_forM fun n => ?_).bind fun _ => respects_forM fun n => ?_
  · refine hR.respects_script.bind fun s =>
      (respects_attempt (hR.respects_run hh)).bind fun result => ?_
    cases result with
    | ok _ => exact respects_pure _
    | error e => exact hR.respects_log _ _ _ _
  · refine hR.respects_script.bind fun s =>
      (respects_attempt hR.respects_terminate).bind fun result => ?_
    rcases result with e | _ | _
    · exact hR.respects_log _ _ _ _
    · exact hR.respects_log _ _ _ _
    · exact respects_pure _

theorem respects_submit (c : Commit) : Respects R (submit host c) := by
  refine hR.respects_reading (fun _ _ _ _ => rfl) fun w => ?_
  have henqueue : Respects R (enqueue c) := hR.respects_edit fun _ _ _ _ => rfl
  rcases w.executor with _ | ⟨_ | e⟩ | _ | ⟨_ | _⟩ | ⟨_ | _⟩
  · exact hR.respects_commit hh c
  · exact hR.respects_commit hh c
  · exact respects_throw e
  · exact henqueue
  · exact henqueue
  · exact respects_throw _
  · exact henqueue
  · exact respects_throw _

theorem respects_reconcile : Respects R (reconcile host) := by
  refine hR.respects_reading (fun _ _ _ _ => rfl) fun w => ?_
  split
  · exact respects_pure _
  · refine hR.respects_cycle.bind fun done => ?_
    dsimp only
    split
    · refine (respects_attempt (hR.respects_submit hh _)).bind fun result => ?_
      cases result with
      | ok _ => exact respects_pure _
      | error e =>
        exact (hR.respects_log _ _ _ _).bind fun _ =>
          (hR.respects_commit hh _).bind fun _ => respects_pure _
    · exact respects_pure _

theorem respects_preloadCycles (left cycles : Nat) :
    Respects R (preloadCycles host left cycles) := by
  induction left generalizing cycles with
  | zero => exact respects_pure _
  | succ left ih =>
    refine hR.respects_reading (fun _ _ _ _ => rfl) fun w => ?_
    split
    · exact respects_pure _
    · refine hR.respects_reading (fun _ _ _ _ => rfl) fun w => hR.respects_cycle.bind fun done => ?_
      refine (hR.respects_commit hh _).bind fun _ =>
        hR.respects_reading (fun _ _ _ _ => rfl) fun w => ?_
      split
      · exact respects_pure _
      · exact ih _

theorem respects_preload : Respects R (preload host) := by
  refine hR.respects_reading (fun _ _ _ _ => rfl) fun w =>
    (hR.respects_preloadCycles hh _ _).bind fun outcome => ?_
  have hcomplete : Respects R (do
      log "Reconciler" .info "preload_complete"
        [("cycles", .int outcome.1), ("scripts", .int (← get).registry.length)]
      return outcome.1) :=
    hR.respects_reading (fun _ _ _ _ => rfl) fun w =>
      (hR.respects_log _ _ _ _).bind fun _ => respects_pure _
  dsimp only
  split
  · exact (hR.respects_log _ _ _ _).bind fun _ => hcomplete
  · exact hcomplete

omit hh in
theorem respects_drainWith {runTask : Commit → Act Unit} (hr : ∀ c, Respects R (runTask c))
    (fuel : Nat) :
    Respects R (drainWith runTask fuel) := by
  induction fuel with
  | zero => exact respects_pure _
  | succ fuel ih =>
    refine respects_get_bind fun w w' h => ?_
    have htasks : w'.tasks = w.tasks := by
      rw [hR.frame h]
      rfl
    rw [htasks]
    rcases w.tasks with _ | ⟨c, rest⟩
    · exact respects_pure _ w w' h
    · exact (hr c).bind (fun _ => ih) _ _
        (hR.edit (g := fun w => { w with tasks := rest }) (fun _ _ _ _ => rfl) h)

theorem respects_runPooled (c : Commit) : Respects R (runPooled host c) := by
  refine hR.respects_reading (fun _ _ _ _ => rfl) fun w => ?_
  refine Respects.bind (hR.respects_edit fun _ _ _ _ => rfl) fun _ => ?_
  exact (respects_attempt (hR.respects_commit hh c)).bind fun _ =>
    hR.respects_edit fun _ _ _ _ => rfl

theorem respects_drainPool : Respects R (drainPool host) :=
  hR.respects_reading (fun _ _ _ _ => rfl) fun _ =>
    hR.respects_drainWith (hR.respects_runPooled hh) _

theorem respects_settle : Respects R (settle host) := by
  have hlooped (c : Commit) : Respects R (runLooped host c) :=
    (respects_attempt (hR.respects_commit hh c)).bind fun _ => respects_pure _
  refine hR.respects_reading (fun _ _ _ _ => rfl) fun w => ?_
  cases w.executor with
  | pool isClosed => exact hR.respects_drainPool hh
  | loop isClosed => exact hR.respects_drainWith hlooped _
  | inline | refusable refusal | queue => exact respects_pure _

theorem respects_pump (count : Nat) : Respects R (pump host count) :=
  (hR.respects_drainWith (hR.respects_commit hh) count).bind fun _ =>
    hR.respects_reading (fun _ _ _ _ => rfl) fun _ => respects_pure _

theorem respects_pollRound : Respects R (pollRound host) := by
  refine (respects_attempt (hR.respects_reconcile hh)).bind fun result => ?_
  cases result with
  | ok _ => exact respects_pure _
  | error e => exact hR.respects_log _ _ _ _

theorem respects_closePool : Respects R (closePool host) := by
  refine hR.respects_reading (fun _ _ _ _ => rfl) fun w => ?_
  cases w.executor with
  | pool isClosed =>
    refine Respects.bind (hR.respects_edit fun _ _ _ _ => rfl) fun _ => ?_
    refine hR.respects_reading (fun _ _ _ _ => rfl) fun w => ?_
    split
    · exact respects_throw _
    · exact hR.respects_drainPool hh
  | inline | refusable refusal | queue | loop isClosed => exact respects_pure _

omit hh in
theorem respects_stopPolling : Respects R stopPolling := by
  refine hR.respects_setting (fun _ _ _ _ => rfl) (fun _ _ _ _ => rfl) fun w => ?_
  cases w.joinFault? with
  | none => exact respects_pure _
  | some e => exact respects_throw e

theorem respects_shutdown : Respects R (shutdown host) := by
  refine hR.respects_stopPolling.bind fun _ => (hR.respects_closePool hh).bind fun _ => ?_
  refine hR.respects_reading (fun _ _ _ _ => rfl) fun w => ?_
  split
  · refine Respects.bind (hR.respects_edit fun _ _ _ _ => rfl) fun _ => ?_
    refine hR.respects_reading (fun _ _ _ _ => rfl) fun w => ?_
    refine hR.respects_terminateAll.bind fun failures => ?_
    refine Respects.bind (hR.respects_edit fun _ _ _ _ => rfl) fun _ => ?_
    exact hR.stopWatch.bind fun _ => hR.respects_log _ _ _ _
  · exact respects_pure _

theorem respects_answer (request : HostRequest) : Respects R (answer host request) := by
  cases request with
  | reconcile => exact (hR.respects_reconcile hh).bind fun _ => respects_pure _
  | preload => exact (hR.respects_preload hh).bind fun _ => respects_pure _
  | start => exact hR.respects_start.bind fun _ => respects_pure _
  | shutdown => exact (hR.respects_shutdown hh).bind fun _ => respects_pure _
  | watch paths => exact (hR.respects_watchPaths _).bind fun _ => respects_pure _
  | unwatch paths => exact (hR.respects_unwatchPaths _).bind fun _ => respects_pure _
  | event path kind => exact (hR.pushEvent _ _).bind fun _ => respects_pure _

end Hosts

/-- Nothing that is asked of a host goes by observers. -/
theorem respects_hostAt (depth : Nat) (request : HostRequest) :
    Respects R (hostAt depth request) := by
  induction depth generalizing request with
  | zero => exact respects_throw _
  | succ depth ih => exact hR.respects_answer ih request

end Likens

end HotReload.World
