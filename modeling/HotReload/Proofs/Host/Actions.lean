import HotReload.Proofs.Host.Tame

/-!
# What bodies do

The actions of a body read, change files and exports, and change the instance that it is
the body of. Whatever kind of worlds is closed under these few changes is kept by every
body, and what a body raises in tame worlds is ordinary.
-/
namespace HotReload

theorem Value.ordinary_plus {v v' : Value} {e : Failure} (h : v.plus v' = .error e) :
    Ordinary e := by
  unfold plus at h
  split at h
  · cases h
  · cases h
  · cases h
    rfl
  · cases h
    rfl
  · split at h
    · cases h
    · split at h
      · cases h
      · cases h
        rfl

theorem ExportRun.get_given (run : ExportRun) (key : String) (v : Value) :
    ∃ v', (run.get key (.given v)).1 = .ok v' := by
  unfold get slotGet fill
  dsimp only [ExportSource.ask]
  split <;> exact ⟨_, rfl⟩

/-- What ends a termination before its time, where it may be given up. -/
def Regime.GivesUp (R : Regime) (e : Failure) : Prop := Ordinary e ∧ R.abandons

/-- Only an action that happens once has another one in it. -/
theorem Action.onceInduction {P : Action → Prop}
    (step : ∀ action, (∀ key inner, action = .once key inner → P inner) → P action)
    (action : Action) :
    P action := by
  refine step action fun key inner h => ?_
  have hlt : sizeOf inner < sizeOf action := by
    rw [h, Action.once.sizeOf_spec]
    omega
  exact onceInduction step inner
termination_by sizeOf action

/-- Whether an action asks something of the host. -/
def Action.Asks : Action → HostRequest → Prop
  | .once _ action, asked => action.Asks asked
  | .host request, asked => asked = request
  | _, _ => False

namespace World

open Operation

/-- Whether nothing changed but files, exports, the keys that were met and the journal, and no
instance lived or died. -/
structure Local (w w' : World) : Prop where
  frame : w' = { w with
    files := w'.files, exports := w'.exports, met := w'.met, journal := w'.journal }
  lives : w'.journal.lives = w.journal.lives

theorem Local.calm {w w' : World} (h : Local w w') : Calm w w' := by
  refine ⟨?_, h.lives⟩
  rw [h.frame]

/-- Whether the worlds of a kind are tame, and what an instance does by itself leads
to worlds of that kind. -/
structure Admits (R : Regime) (n : Nat) (I : World → Prop) : Prop where
  tame : ∀ w, I w → IsTame R w
  known : ∀ w, I w → ∃ s, w.script? n = some s
  nearby : ∀ w w', I w → Local w w' → IsTame R w' → I w'
  declare : ∀ w f,
    I w →
      (∀ s, f s = { s with dependencies := (f s).dependencies, lastChange := (f s).lastChange }) →
    I { w with scripts := w.scripts.modify n f }
  allocate : ∀ w s resources, I w → w.script? n = some s → s.resources.Becomes R resources →
    I { w with scripts := w.scripts.modify n ({ · with resources }) }
  unwatch : ∀ w paths, I w → I (scriptUnwatch n paths w).2

section Reading

variable {I : World → Prop} {E : Failure → Prop} {α : Type}

theorem keeps_liftExcept {result : Except Failure α} (h : ∀ e, result = .error e → E e) :
    Keeps I E (liftExcept result) := by
  cases result with
  | ok x => exact keeps_pure x
  | error e => exact keeps_throw (h e rfl)

theorem keeps_attempt {F : Failure → Prop} {handles : Failure → Bool} {act : Act α}
    (h : Keeps I F act) (he : ∀ e, F e → handles e = true ∨ E e) :
    Keeps I E (World.attempt handles act) :=
  fun s hs => ends_attempt (h s hs) he

theorem keeps_hostObject (ns : Namespace) (name method : String) :
    Keeps I Ordinary (hostObject ns name method) := by
  unfold hostObject
  split
  · exact keeps_pure _
  · refine keeps_throw ?_
    split <;> rfl

theorem keeps_readVariable (name : String) (ns : Namespace) :
    Keeps I Ordinary (readVariable name ns) := by
  unfold readVariable
  split
  · exact keeps_pure _
  · split
    · exact keeps_get_bind fun s hs => keeps_pure _ s hs
    · exact keeps_throw rfl

theorem keeps_evaluate (expression : String) (ns : Namespace) :
    Keeps I Ordinary (evaluate expression ns) := by
  unfold evaluate
  split
  · exact keeps_pure _
  · refine (keeps_readVariable _ _).bind fun v => keeps_foldlM (fun v name _ => ?_) v
    refine (keeps_readVariable _ _).bind fun v' => keeps_liftExcept fun e he => ?_
    exact Value.ordinary_plus he

theorem keeps_exportsOf (s : Script) : Keeps I E (exportsOf s) :=
  keeps_get_bind fun w hw => keeps_pure _ w hw

end Reading

/-- The body in the file of a path, if it can be run. -/
def bodyOf (w : World) (p : Path) : List Action :=
  match w.files.lookup (w.files.here.join (w.fileOf p)).fold with
  | .ok (.file (.script body) _) => if (Action.malformedLine? body).isSome then [] else body
  | _ => []

/-- What is true of every body in a file, and of the empty body, is true of the body of a path. -/
theorem bodyOf_holds {w : World} {P : List Action → Prop} (hnil : P [])
    (hP : ∀ loc body time, (loc, .file (.script body) time) ∈ w.files.nodes → P body) (p : Path) :
    P (w.bodyOf p) := by
  have hnodes : w.files.Holds fun node => ∀ body time, node = .file (.script body) time →
    P body := by
    rintro ⟨loc, node⟩ he body time rfl
    exact hP loc body time he
  unfold bodyOf
  split
  · rename_i body time hl
    have hbody : P body := hnodes.lookup (fun _ _ hd => by cases hd) hl body time rfl
    split
    · exact hnil
    · exact hbody
  · exact hnil

/-- A body that cannot be run counts as empty. -/
theorem loadBody_eq (s : Script) (w : World) : loadBody s w = (.ok (w.bodyOf s.path), w) ∨
    ∃ e, loadBody s w = (.error e, w) ∧ Ordinary e ∧ w.bodyOf s.path = [] := by
  rw [loadBody, get_bind, bodyOf]
  rcases hl : w.files.lookup (w.files.here.join (w.fileOf s.path)).fold with fault | node
  · exact Or.inr ⟨_, rfl, Failure.ordinary_file _ _, rfl⟩
  · rcases node with ⟨body | text, time⟩ | _ | target
    · dsimp only
      cases Action.malformedLine? body with
      | some line => exact Or.inr ⟨_, rfl, rfl, rfl⟩
      | none => exact Or.inl rfl
    · exact Or.inl rfl
    · exact Or.inr ⟨_, rfl, rfl, rfl⟩
    · exact Or.inr ⟨_, rfl, rfl, rfl⟩

/-- The body in a file of a tame world is tame. -/
theorem tame_bodyOf {w : World} (h : IsTame R w) (p : Path) : Action.AreTame R (w.bodyOf p) := by
  refine bodyOf_holds (P := Action.AreTame R) trivial (fun loc body time he => ?_) p
  have ht : (FileNode.file (FileContent.script body) time).IsTame R := h.nodes _ he
  exact ht

theorem script_launched {w : World} {n : Nat} {s : Script} (hs : w.script? n = some s) :
    script n (w.launched n) = (.ok { s with state := .running, hasContext := true },
      w.launched n) := by
  refine script_of_some ?_
  rw [launched, script?_modify, if_pos rfl, hs]
  rfl

theorem ordinary_of_isClaimFailure {e : Failure} (h : IsClaimFailure e) : Ordinary e := by
  obtain ⟨kind, argument, rfl, rfl | rfl⟩ := h <;> rfl

namespace Admits

variable {R : Regime} {n : Nat} {I : World → Prop} {E : Failure → Prop}

section Changing

variable (hI : Admits R n I)
include hI

theorem script_eq {w : World} (h : I w) : ∃ s, w.script? n = some s ∧ script n w = (.ok s, w) := by
  obtain ⟨s, hs⟩ := hI.known w h
  exact ⟨s, hs, script_of_some hs⟩

theorem keeps_script : Keeps I E (script n) := by
  intro w h
  obtain ⟨s, -, hs⟩ := hI.script_eq h
  rw [hs]
  exact ends_ok h

theorem journal {w : World} (h : I w) {j : Journal} (hj : j.lives = w.journal.lives) :
    I { w with journal := j } :=
  hI.nearby w _ h ⟨rfl, hj⟩ ((hI.tame w h).transfer rfl rfl rfl rfl rfl)

theorem keeps_record {event : TraceEvent} (he : event.isLife = false) :
    Keeps I E (record event) := by
  refine keeps_modify fun w h => hI.journal h ?_
  rw [Journal.lives_record, he]
  exact List.append_nil _

theorem keeps_enter (entry : LogEntry) : Keeps I E (enter entry) :=
  keeps_modify fun _ h => hI.journal h rfl

theorem keeps_log (component : String) (level : LogLevel) (event : String)
    (fields : List (String × Value)) : Keeps I E (log component level event fields) :=
  hI.keeps_enter _

theorem keeps_setExports (s : Script) (exports : ExportRegistry) :
    Keeps I E (setExports s exports) :=
  keeps_modify fun w h => hI.nearby w _ h ⟨rfl, rfl⟩ ((hI.tame w h).transfer rfl rfl rfl rfl rfl)

theorem keeps_fetchExport (s : Script) (key : String) (default : Value) :
    Keeps I E (fetchExport s key default) := by
  refine (keeps_exportsOf s).bind fun exports => ?_
  obtain ⟨v, hv⟩ := ExportRun.get_given { registry := exports } key default
  rcases hr : ExportRun.get { registry := exports } key (.given default) with ⟨result, run⟩
  rw [hr] at hv
  obtain rfl : result = .ok v := hv
  exact (hI.keeps_setExports s run.registry).bind fun _ => keeps_pure v

theorem keeps_putExport (s : Script) (key : String) (v : Value) : Keeps I E (putExport s key v) :=
  (keeps_exportsOf s).bind fun _ => hI.keeps_setExports s _

theorem keeps_depend (path : Path) : Keeps I Ordinary (depend n path) := by
  refine hI.keeps_script.bind fun s => keeps_get_bind fun w hw => ?_
  refine (keeps_liftExcept fun e he => ?_).bind (fun form => ?_) w hw
  · obtain ⟨argument, rfl⟩ := circle?_failure (normalize_error.mp he)
    rfl
  by_cases hp : form ≠ s.path
  · rw [if_pos hp]
    refine (keeps_liftExcept fun e he => ?_).bind fun modified => ?_
    · obtain ⟨fault, text, rfl⟩ := FileTree.modified?_error he
      exact Failure.ordinary_file fault text
    · exact keeps_modify fun w h => hI.declare w _ h fun s => rfl
  · rw [if_neg hp]
    exact keeps_pure _

/-- What an instance holds changes, and the closings are reported. -/
theorem ends_setResources {w : World} {s : Script} (h : I w) (hs : w.script? n = some s)
    (before : ResourceRegistry) {after : ResourceRegistry} (ha : s.resources.Becomes R after) :
    Ends I E (setResources n before after w) := by
  have hends : Ends I E (updateScript n ({ · with resources := after }) w) :=
    ends_ok (hI.allocate w s after h hs ha)
  exact hends.bind fun _ => keeps_forM fun label _ => hI.keeps_record rfl

/-- What becomes of the resources of an instance, and what that raises. -/
theorem keeps_changeResources (change : ResourceRegistry → Option Failure × ResourceRegistry)
    (hc : ∀ r, r.IsTame R → r.Becomes R (change r).2 ∧ ∀ e, (change r).1 = some e → Ordinary e) :
    Keeps I Ordinary (do
      let s ← script n
      let (failure, resources) := change s.resources
      setResources n s.resources resources
      match failure with
      | some e => throw e
      | none => pure ()) := by
  intro w h
  obtain ⟨s, hs, hscript⟩ := hI.script_eq h
  rw [bind_of_ok hscript]
  obtain ⟨ht, he⟩ := hc s.resources ((hI.tame w h).resources s (List.mem_of_getElem? hs))
  rcases hr : change s.resources with ⟨failure, resources⟩
  rw [hr] at ht he
  refine (hI.ends_setResources h hs _ ht).bind fun _ => ?_
  cases failure with
  | none => exact keeps_pure _
  | some e => exact keeps_throw (he e rfl)

theorem keeps_deferResource {resource : Resource} (hr : resource.IsTame R) :
    Keeps I Ordinary (deferResource n resource) :=
  hI.keeps_changeResources (ResourceRegistry.defer resource) fun _ h =>
    ResourceRegistry.defer_tame hr h

theorem keeps_closeResources : Keeps I Ordinary (closeResources n) :=
  hI.keeps_changeResources ResourceRegistry.close fun _ h => ResourceRegistry.close_tame h

/-- Closing what an instance holds raises nothing, unless terminations may be given up. -/
theorem keeps_closeSilently : Keeps I R.GivesUp (closeSilently n) := by
  intro w h
  obtain ⟨s, hs, hscript⟩ := hI.script_eq h
  obtain ⟨result, resources, hc, hsealed, hfault⟩ := ResourceRegistry.closeHeld_tame
    ((hI.tame w h).resources s (List.mem_of_getElem? hs))
  rw [closeSilently, bind_of_ok hscript, hc]
  refine (hI.ends_setResources h hs _ ⟨hsealed.isTame, fun _ => hsealed⟩).bind fun _ => ?_
  refine Keeps.bind (keeps_liftExcept fun e he => ?_) fun errors => ?_
  · obtain ⟨hh, ha⟩ := hfault e he
    exact ⟨hh.ordinary, ha⟩
  exact (keeps_forM fun e _ => hI.keeps_log _ _ _ _).bind fun _ => keeps_pure _

/-- What an operation raises is only logged. -/
theorem ends_cleanly {event : String} {path : Path} {action : Act Unit} {w : World}
    (h : Ends I Ordinary (action w)) : Ends I E (cleanly event path action w) := by
  refine Ends.bind (ends_attempt (E := E) h fun e he => Or.inl he) fun result => ?_
  cases result with
  | ok _ => exact keeps_pure true
  | error e => exact (hI.keeps_log _ _ _ _).bind fun _ => keeps_pure false

/-- An edit of the files keeps the world tame if what it leads to is tame. -/
theorem keeps_edit (hR : R.edits) {edit : World → Except Failure (FileTree FileContent)}
    (hedit : ∀ w files, edit w = .ok files → w.files.Edited files)
    (he : ∀ w, IsTame R w → FileTree.Edits (FileNode.IsTame R) w.files (edit w)) :
    Keeps I Ordinary (do
      let w ← get
      let files ← liftExcept (edit w)
      set { w with files }) := by
  refine keeps_get_bind fun w h => ?_
  have htame := hI.tame w h
  have hends := he w htame
  rcases hr : edit w with e | files
  · rw [hr] at hends
    obtain ⟨fault, path, rfl⟩ := hends
    exact keeps_throw (Failure.ordinary_file fault path) w h
  · rw [hr] at hends
    have htree := R.tree_of_edits hR _ _ htame.tree (hedit w files hr)
    refine ends_ok (hI.nearby w _ h ⟨rfl, rfl⟩ ?_)
    exact ⟨htame.root, hends.2 ▸ htame.here, hends.1, htree, htame.raises, htame.named,
      htame.refusal, htame.resources⟩

theorem keeps_writeFile (hR : R.edits) (path : String) {content : FileContent} {time : Float}
    (hc : FileNode.IsTame R (.file content time)) :
    Keeps I Ordinary (writeFile path content time) :=
  hI.keeps_edit hR (fun _ _ h => Or.inl ⟨_, _, _, h⟩) fun _ hw =>
    FileTree.edits_write hw.nodes trivial hc _

theorem keeps_removeFile (hR : R.edits) (path : String) : Keeps I Ordinary (removeFile path) :=
  hI.keeps_edit hR (fun _ _ h => Or.inr ⟨_, h⟩) fun _ hw => FileTree.edits_remove hw.nodes _

theorem keeps_scriptUnwatch (paths : List Path) : Keeps I Ordinary (scriptUnwatch n paths) := by
  intro w h
  refine ⟨hI.unwatch w paths h, fun e h' => ?_⟩
  exact ordinary_of_isClaimFailure ((ends_scriptUnwatch n paths w).2 e h')

theorem keeps_scriptUnwatchAll : Keeps I Ordinary (scriptUnwatchAll n) :=
  hI.keeps_script.bind fun _ => hI.keeps_scriptUnwatch _

end Changing

section Running

variable {host : HostRequest → Act HostAnswer} (hI : Admits R n I)
  (hw : ∀ w paths, I w → (∀ p ∈ paths, R.spells p) → I (scriptWatch n paths w).2)
include hI hw

omit hI in
theorem keeps_scriptWatch {paths : List Path} (hp : ∀ p ∈ paths, R.spells p) :
    Keeps I Ordinary (scriptWatch n paths) := by
  intro w h
  refine ⟨hw w paths h hp, fun e h' => ?_⟩
  exact ordinary_of_isClaimFailure ((ends_scriptWatch n paths w).2 e h')

/-- The case of every action, and an action that happens once by induction. -/
theorem keeps_runAction (action : Action) (ns : Namespace) (ha : action.IsTame R)
    (hh : ∀ request, action.Asks request → R.asks request → request.IsNamed →
      Keeps I Ordinary (host request)) :
    Keeps I Ordinary (runAction host n action ns) := by
  induction action using Action.onceInduction generalizing ns with
  | step action ih =>
  cases action with
  | depend path =>
    refine (keeps_hostObject ns _ _).bind fun _ => ?_
    exact (hI.keeps_depend _).bind fun _ => keeps_pure ns
  | watch paths =>
    refine (keeps_hostObject ns _ _).bind fun _ => ?_
    exact (keeps_scriptWatch hw (List.forall_mem_map.mpr ha)).bind fun _ => keeps_pure ns
  | unwatch paths =>
    refine (keeps_hostObject ns _ _).bind fun _ => ?_
    exact (hI.keeps_scriptUnwatch _).bind fun _ => keeps_pure ns
  | set name v => exact keeps_pure _
  | defer label failure =>
    have ht : (Resource.mk label failure []).IsTame R := ⟨rfl, ha⟩
    refine (keeps_hostObject ns _ _).bind fun _ => ?_
    exact (hI.keeps_deferResource ht).bind fun _ => keeps_pure ns
  | close =>
    refine (keeps_hostObject ns _ _).bind fun _ => ?_
    exact hI.keeps_closeResources.bind fun _ => keeps_pure ns
  | trace label =>
    refine (keeps_readVariable _ ns).bind fun name => (keeps_readVariable _ ns).bind fun path => ?_
    exact (hI.keeps_record rfl).bind fun _ => keeps_pure ns
  | evaluate expression =>
    refine (keeps_evaluate _ ns).bind fun v => ?_
    exact (hI.keeps_record rfl).bind fun _ => keeps_pure ns
  | directory =>
    refine (keeps_readVariable _ ns).bind fun own => (keeps_hostObject ns _ _).bind fun _ => ?_
    refine keeps_get_bind fun w h => ?_
    exact (hI.keeps_record rfl).bind (fun _ => keeps_pure ns) w h
  | paths =>
    refine (keeps_hostObject ns _ _).bind fun _ => hI.keeps_script.bind fun s => ?_
    exact (hI.keeps_record rfl).bind fun _ => keeps_pure ns
  | thread =>
    exact keeps_get_bind fun w h => (hI.keeps_record rfl).bind (fun _ => keeps_pure ns) w h
  | fetch key default =>
    refine (keeps_hostObject ns _ _).bind fun _ => hI.keeps_script.bind fun s => ?_
    refine (hI.keeps_fetchExport s _ _).bind fun v => ?_
    exact (hI.keeps_record rfl).bind fun _ => keeps_pure ns
  | put key v =>
    refine (keeps_hostObject ns _ _).bind fun _ => hI.keeps_script.bind fun s => ?_
    exact (hI.keeps_putExport s _ _).bind fun _ => keeps_pure ns
  | drop key =>
    refine (keeps_hostObject ns _ _).bind fun _ => hI.keeps_script.bind fun s => ?_
    exact (keeps_exportsOf s).bind fun _ => (hI.keeps_setExports s _).bind fun _ => keeps_pure ns
  | count key =>
    refine (keeps_hostObject ns _ _).bind fun _ => hI.keeps_script.bind fun s => ?_
    refine (hI.keeps_fetchExport s _ _).bind fun v => Keeps.bind ?_ fun v => ?_
    · exact keeps_liftExcept fun e he => Value.ordinary_plus he
    · exact (hI.keeps_putExport s _ _).bind fun _ => keeps_pure ns
  | raise failure => exact keeps_throw ha
  | log method event fields =>
    refine (keeps_hostObject ns _ _).bind fun _ => hI.keeps_script.bind fun s => ?_
    exact (hI.keeps_enter _).bind fun _ => keeps_pure ns
  | once key action =>
    refine keeps_get_bind fun w h => ?_
    by_cases hk : w.met.contains key = true
    · rw [if_pos hk]
      exact keeps_pure ns w h
    · rw [if_neg hk]
      refine ih key action rfl ns ha hh _ (hI.nearby w _ h ⟨rfl, rfl⟩ ?_)
      exact (hI.tame w h).transfer rfl rfl rfl rfl rfl
  | host request =>
    refine (hh request rfl ha.1 ha.2).bind fun a => ?_
    exact (hI.keeps_record rfl).bind fun _ => keeps_pure ns
  | write path body =>
    have hc : FileNode.IsTame R (.file (.script body) writtenAt) := ha.2
    exact (hI.keeps_writeFile ha.1 path hc).bind fun _ => keeps_pure ns
  | remove path => exact (hI.keeps_removeFile ha path).bind fun _ => keeps_pure ns
  | malformed => exact keeps_pure ns

theorem keeps_runActions (body : List Action) (hb : Action.AreTame R body) (ns : Namespace)
    (hh : ∀ action ∈ body, ∀ request, action.Asks request → R.asks request → request.IsNamed →
      Keeps I Ordinary (host request)) : Keeps I Ordinary (runActions host n body ns) := by
  induction body generalizing ns with
  | nil => exact keeps_pure ns
  | cons action rest ih =>
    obtain ⟨hfirst, hrest⟩ := List.forall_mem_cons.mp hh
    exact (hI.keeps_runAction hw action ns hb.1 hfirst).bind fun ns => ih hb.2 ns hrest

/-- A body is loaded and run. -/
theorem ends_body {w : World} (h : I w) (s : Script) (ns : Namespace)
    (hh : ∀ action ∈ w.bodyOf s.path, ∀ request, action.Asks request → R.asks request →
      request.IsNamed → Keeps I Ordinary (host request)) :
    Ends I Ordinary ((do runActions host n (← loadBody s) ns) w) := by
  rcases loadBody_eq s w with hb | ⟨e, hb, he, -⟩
  · rw [bind_of_ok hb]
    exact hI.keeps_runActions hw _ (tame_bodyOf (hI.tame w h) s.path) ns hh w h
  · rw [bind_of_error hb]
    exact ends_error h he

section Starting

variable {w : World} {s : Script} (hs : w.script? n = some s) (hstart : I (w.started n s))
  (hh : ∀ action ∈ w.bodyOf s.path, ∀ request, action.Asks request → R.asks request →
    request.IsNamed →
    Keeps I Ordinary (host request))
include hs hstart hh

/-- The body of an instance that was started comes to its end, and its variables are kept, or it
ends with a failure. -/
theorem execute_cases :
    (∃ w' ns, execute host n (w.launched n) =
      (.ok (), { w' with engine := w'.engine.keep s.path n ns }) ∧ I w') ∨
      ∃ e w', execute host n (w.launched n) = (.error e, w') ∧ Ordinary e ∧ I w' := by
  have hbody := hI.ends_body hw hstart { s with state := .running, hasContext := true }
    (initialNamespace { s with state := .running, hasContext := true } (w.fileOf s.path).toText) hh
  obtain ⟨hw', he'⟩ :
    Ends I Ordinary (World.attempt (fun e => e.isSystem || e.isText) _ (w.started n s)) :=
    ends_attempt hbody fun e he => Or.inr he
  rw [execute, bind_of_ok (script_launched hs), get_bind, record, modify_bind]
  rcases ha : World.attempt (fun e => e.isSystem || e.isText) (do
    runActions host n (← loadBody { s with state := .running, hasContext := true })
      (initialNamespace { s with state := .running, hasContext := true } (w.fileOf s.path).toText))
    (w.started n s) with ⟨e | e | ns, w'⟩ <;> rw [ha] at hw' he'
  · exact Or.inr ⟨e, w', bind_of_error ha _, he' e rfl, hw'⟩
  · exact Or.inr ⟨.loading s.path e, w', bind_of_ok ha _, rfl, hw'⟩
  · exact Or.inl ⟨w', ns, bind_of_ok ha _, hw'⟩

/-- Running an instance for the first time starts it, and keeps the variables of its body or
what the body raised. -/
theorem ends_run {J : World → Prop} (hc : s.state = .created)
    (hblame : ∀ w' e, I w' →
      I { w' with scripts := w'.scripts.modify n ({ · with error := some e }) })
    (hcomplete : ∀ w' ns, I w' → J { w' with engine := w'.engine.keep s.path n ns })
    (hfail : ∀ w', I w' → J w') :
    Ends J E (run host n w) := by
  rw [run, bind_of_ok (script_of_some hs), if_neg (not_not_intro hc), updateScript, modify_bind]
  show Ends _ _ ((World.attempt Failure.isOrdinary (execute host n) >>= _) (w.launched n))
  rcases hI.execute_cases hw hs hstart hh with ⟨w', ns, he, h'⟩ | ⟨e, w', he, ho, h'⟩
  · rw [bind_of_ok (World.attempt_of_ok he)]
    exact keeps_pure _ _ (hcomplete w' ns h')
  · rw [bind_of_ok (World.attempt_of_handled he ho)]
    refine Ends.imp (I := I) ?_ hfail
    refine Keeps.bind (keeps_modify fun w h => ?_) (fun _ => hI.keeps_log _ _ _ _) w' h'
    exact hblame w _ h

end Starting

end Running

end Admits

end World

end HotReload
