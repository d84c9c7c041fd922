import HotReload.Proofs.Host.Actions

/-!
# What a run comes to

An instance that is run for the first time is started, and its body loaded and run. Its variables
are kept, or the failure of the body is kept with the instance; only what is not ordinary is raised.
-/
namespace HotReload

theorem Failure.ordinary_of_isText {e : Failure} (h : e.isText = true) : Ordinary e := by
  have hk : e.kindName ∈ textKinds := by simpa [isText] using h
  have ho : ∀ kind ∈ textKinds, (!endingKinds.contains kind) = true := by decide
  exact ho _ hk

/-- What a body that cannot be read fails with is ordinary. -/
theorem Failure.ordinary_of_unread {e : Failure} (h : (e.isSystem || e.isText) = true) :
    Ordinary e :=
  (Bool.or_eq_true_iff.mp h).elim ordinary_of_isSystem ordinary_of_isText

/-- What an instance is said to have failed with: a body that cannot be read was not loaded. -/
def Script.blames (s : Script) (e : Failure) : Failure :=
  if e.isSystem || e.isText then .loading s.path e else e

theorem Script.blames_of_ending (s : Script) {e : Failure} (he : ¬Ordinary e) : s.blames e = e :=
  if_neg fun h => he (Failure.ordinary_of_unread h)

theorem Script.ordinary_blames (s : Script) {e : Failure} : Ordinary (s.blames e) ↔ Ordinary e := by
  unfold blames
  split
  · rename_i h
    exact iff_of_true rfl (Failure.ordinary_of_unread h)
  · exact Iff.rfl

namespace World

open Operation

variable {w w' : World} {n : Nat} {s : Script} {e : Failure} {ns : Namespace}

/-- What the body of an instance comes to that is started in a world: its variables, or what loading
or running it raised. -/
def runBody (host : HostRequest → Act HostAnswer) (n : Nat) (s : Script) (w : World) :
    Except Failure Namespace × World :=
  (do runActions host n (← loadBody s) (initialNamespace s (w.fileOf s.path).toText) :
    Act Namespace) (w.started n s)

theorem runBody_eq (host : HostRequest → Act HostAnswer) (n : Nat) (h : w.bodyOf s.path ≠ []) :
    runBody host n s w =
      runActions host n (w.bodyOf s.path) (initialNamespace s (w.fileOf s.path).toText)
        (w.started n s) := by
  rcases loadBody_eq s (w.started n s) with hb | ⟨e, -, -, hempty⟩
  · exact bind_of_ok hb _
  · exact absurd hempty h

/-- A world in which the failure of a body is kept with its instance. -/
def failed (w : World) (n : Nat) (s : Script) (e : Failure) : World :=
  { w with
    scripts := w.scripts.modify n ({ · with error := some (s.blames e) })
    journal := w.journal.enter (.ofComponent "Script" .error "script_run_failed"
      [("path", .text s.path.toText), ("error", .text (s.blames e).message),
        LogEntry.attached (s.blames e)]) }

/-- An instance that is started has the same body as before. -/
theorem loadBody_running (s : Script) :
    loadBody { s with state := .running, hasContext := true } = loadBody s :=
  rfl

theorem initialNamespace_running (s : Script) (file : String) :
    initialNamespace { s with state := .running, hasContext := true } file =
      initialNamespace s file := rfl

theorem fileOf_launched (w : World) (n : Nat) (p : Path) : (w.launched n).fileOf p = w.fileOf p :=
  rfl

section First

variable {host : HostRequest → Act HostAnswer} (hs : w.script? n = some s)
include hs

theorem execute_of_ok (hb : runBody host n s w = (.ok ns, w')) :
    execute host n (w.launched n) = (.ok (), { w' with engine := w'.engine.keep s.path n ns }) := by
  have ha : World.attempt (fun e => e.isSystem || e.isText)
      (do runActions host n (← loadBody s) (initialNamespace s (w.fileOf s.path).toText))
        (w.started n s) = _ :=
    World.attempt_of_ok hb
  rw [execute, bind_of_ok (script_launched hs), get_bind, record, modify_bind, loadBody_running,
    initialNamespace_running, fileOf_launched]
  exact bind_of_ok ha _

theorem execute_of_error (hb : runBody host n s w = (.error e, w')) :
    execute host n (w.launched n) = (.error (s.blames e), w') := by
  have ha : World.attempt (fun e => e.isSystem || e.isText)
      (do runActions host n (← loadBody s) (initialNamespace s (w.fileOf s.path).toText))
        (w.started n s) = _ :=
    World.attempt_of_error hb
  rw [execute, bind_of_ok (script_launched hs), get_bind, record, modify_bind, loadBody_running,
    initialNamespace_running, fileOf_launched, Script.blames]
  split
  · rename_i he
    rw [if_pos he] at ha
    exact bind_of_ok ha _
  · rename_i he
    rw [if_neg he] at ha
    exact bind_of_error ha _

variable (hc : s.state = .created)
include hc

/-- The variables of a body that comes to its end are kept. -/
theorem run_of_ok (hb : runBody host n s w = (.ok ns, w')) :
    run host n w = (.ok (), { w' with engine := w'.engine.keep s.path n ns }) := by
  rw [run, bind_of_ok (script_of_some hs), if_neg (not_not_intro hc), updateScript, modify_bind]
  exact bind_of_ok (World.attempt_of_ok (execute_of_ok hs hb)) _

/-- An ordinary failure of a body is kept with its instance. -/
theorem run_of_ordinary (hb : runBody host n s w = (.error e, w')) (he : Ordinary e) :
    run host n w = (.ok (), w'.failed n s e) := by
  rw [run, bind_of_ok (script_of_some hs), if_neg (not_not_intro hc), updateScript, modify_bind]
  exact bind_of_ok (World.attempt_of_handled (execute_of_error hs hb) (s.ordinary_blames.mpr he)) _

/-- Any other failure is raised out of the run. -/
theorem run_of_error (hb : runBody host n s w = (.error e, w')) (he : ¬Ordinary e) :
    run host n w = (.error e, w') := by
  have hx := execute_of_error hs hb
  have hnot : ¬e.isOrdinary = true := he
  rw [s.blames_of_ending he] at hx
  have ha : World.attempt Failure.isOrdinary (execute host n) (w.launched n) = _ :=
    World.attempt_of_error hx
  rw [if_neg hnot] at ha
  rw [run, bind_of_ok (script_of_some hs), if_neg (not_not_intro hc), updateScript, modify_bind]
  exact bind_of_error ha _

end First

/-- An instance that was run or is over is not run. -/
theorem run_of_past (host : HostRequest → Act HostAnswer) (hs : w.script? n = some s)
    (hc : s.state ≠ .created) :
    run host n w = (.ok (), { w with
      journal := w.journal.enter (.ofComponent "Script" .warning "script_run_skipped"
        [("path", .text s.path.toText), ("state", .text s.state.word)]) }) := by
  rw [run, bind_of_ok (script_of_some hs), if_pos hc]
  rfl

/-! Commits of one instance. -/

variable {host : HostRequest → Act HostAnswer} (hs : w.script? n = some s)
include hs

theorem commit_of_run (hr : run host n w = (.ok (), w')) :
    commit host ⟨[n], []⟩ w = (.ok (), w') := by
  simp only [commit, List.forM, bind_assoc, bind_of_ok (script_of_some hs),
    bind_of_ok (World.attempt_of_ok hr)]
  rfl

variable (host) in
theorem commit_of_terminate {clean : Bool} (ht : terminate n w = (.ok clean, w')) :
    ∃ j, commit host ⟨[], [n]⟩ w = (.ok (), { w' with journal := j }) := by
  simp only [commit, List.forM, bind_assoc, pure_bind, bind_of_ok (script_of_some hs),
    bind_of_ok (World.attempt_of_ok ht)]
  cases clean with
  | true => exact ⟨w'.journal, rfl⟩
  | false => exact ⟨_, rfl⟩

variable (host) in
/-- An ordinary failure of a termination is only logged. -/
theorem commit_of_terminate_error {e : Failure} (ht : terminate n w = (.error e, w'))
    (he : Ordinary e) :
    ∃ j, commit host ⟨[], [n]⟩ w = (.ok (), { w' with journal := j }) := by
  simp only [commit, List.forM, bind_assoc, pure_bind, bind_of_ok (script_of_some hs),
    bind_of_ok (World.attempt_of_handled ht he)]
  exact ⟨_, rfl⟩

end World

end HotReload
