import HotReload.Host.Instance

/-!
# Reconciliation cycles

A cycle compares what is watched and exists with what is registered, takes in the
reported changes, and registers new instances and removes old ones. Running and
terminating them is a commit, done afterwards.
-/
namespace HotReload.World

/-- Starts the watch before the first cycle; that it cannot be started is only logged. -/
def ensureWatch : Act Unit := do
  let w ← get
  match w.watch with
  | none => pure ()
  | some watch =>
    if !w.watchStarted then
      set { w with watchStarted := true }
      let result ← attempt Failure.isSystem (match watch with
        | .scripted s => scripted s ScriptedWatch.start
        | .directory d => do let _ ← watching d DirectoryWatch.start)
      match result with
      | .ok () => pure ()
      | .error e =>
        log "Reconciler" .error "watch_start_failed"
          [("path", .text w.rootText), ("error", .text e.message)]

/-- Each watched path with whether it leads to a file. -/
def watchedFiles : Act (List (Path × Bool)) := do
  let w ← get
  w.watched.mapM fun path => do
    return (path, ← liftExcept (w.files.isFile (w.fileOf path)))

/-- A reported change with its path in canonical form. -/
def readChange (w : World) (event : String × String) : Except Failure Change :=
  match w.normalize (Path.parse event.1), ChangeKind.ofWord? event.2 with
  | .ok path, some kind => .ok ⟨path, kind⟩
  | .ok _, none =>
    .error (.raised "ValueError" (Text.quote event.2 ++ " is not a valid ChangeKind"))
  | .error e, _ => .error e

/-- The changes reported since the last cycle; that they cannot be had is only logged. -/
def pollChanges : Act (List Change) := do
  let w ← get
  match w.watch with
  | none => return []
  | some watch =>
    let result ← attempt Failure.isSystem (match watch with
      | .scripted s => do return (← scripted s ScriptedWatch.poll).map w.readChange
      | .directory d => do
        return (← watching d (DirectoryWatch.poll w.now)).map fun c =>
          (w.normalize c.path).map (⟨·, c.kind⟩))
    match result with
    | .ok changes => changes.mapM liftExcept
    | .error e =>
      log "Reconciler" .error "watch_poll_failed"
        [("path", .text w.rootText), ("error", .text e.message)]
      return []

/-- Whether the root is a directory that is there. -/
def rootExists (w : World) : Except Failure Bool := w.files.isDirectory w.root

/-- Checks the watch, and replaces it once if it went stale. -/
def rearmWatch : Act Unit := do
  let w ← get
  match w.watch with
  | none => pure ()
  | some watch =>
    let armed ← attempt Failure.isSystem (match watch with
      | .scripted s => scripted s ScriptedWatch.rearm
      | .directory d => watching d (DirectoryWatch.rearm w.rootExists))
    match armed with
    | .ok true => return
    | .ok false => pure ()
    | .error e => log "Reconciler" .warning "watch_rearm_raised" [("error", .text e.message)]
    log "Reconciler" .error "watch_rearm_failed" [("path", .text w.rootText)]
    let recreated ← attempt Failure.isSystem (match (← get).watch with
      | some (.scripted s) => scripted s ScriptedWatch.recreate
      | some (.directory d) => watching d DirectoryWatch.recreate
      | none => pure true)
    match recreated with
    | .ok true => pure ()
    | .ok false => log "Reconciler" .error "watch_recreate_failed" [("path", .text w.rootText)]
    | .error e =>
      log "Reconciler" .error "watch_recreate_failed"
        [("path", .text w.rootText), ("error", .text e.message)]

def logPath (event : String) (path : Path) : Act Unit :=
  log "Reconciler" .info event [("path", .text path.toText)]

/-- Registers a new instance for a path and answers its number. -/
def registerNew (path : Path) : Act Nat := do
  let n ← newScript path
  modify fun w => { w with registry := w.registry.register path n }
  return n

/-- What applying a plan has done so far. -/
structure Applied where
  plan : Plan Nat
  commit : Commit := ⟨[], []⟩

/-- Replaces the instances of the queued paths that are registered. -/
def applyReloads : List Path → Applied → Act Applied
  | [], done => return done
  | path :: rest, done => do
    match (← get).registry.get? path with
    | none => applyReloads rest done
    | some old =>
      let n ← registerNew path
      logPath "script_reloaded" path
      applyReloads rest
        { plan := { done.plan with reloaded := done.plan.reloaded ++ [path] }
          commit := ⟨done.commit.toRun ++ [n], done.commit.toTerminate ++ [old]⟩ }

/-- Makes instances for the paths to load that are not registered. -/
def applyLoads : List Path → Applied → Act Applied
  | [], done => return done
  | path :: rest, done => do
    match (← get).registry.get? path with
    | some _ => applyLoads rest done
    | none =>
      let n ← registerNew path
      logPath "script_loaded" path
      applyLoads rest
        { plan := { done.plan with loaded := done.plan.loaded ++ [path] }
          commit := ⟨done.commit.toRun ++ [n], done.commit.toTerminate⟩ }

/-- Removes the instances to unload. -/
def applyUnloads : List (Path × Nat) → Applied → Act Applied
  | [], done => return done
  | (path, old) :: rest, done => do
    modify fun w => { w with registry := w.registry.unregister path old }
    logPath "script_unloaded" path
    applyUnloads rest
      { plan := { done.plan with unloaded := done.plan.unloaded ++ [path] }
        commit := ⟨done.commit.toRun, done.commit.toTerminate ++ [old]⟩ }

/-- Carries out a plan. -/
def apply (plan : Plan Nat) : Act Applied := do
  let done ← applyReloads plan.reloadQueue { plan }
  let done ← applyLoads plan.toLoad done
  applyUnloads plan.toUnload done

/-- Plans a cycle from what is there and what was reported. -/
def planCycle : Act (Plan Nat) := do
  ensureWatch
  let watched ← watchedFiles
  let changes ← pollChanges
  rearmWatch
  let w ← get
  return Plan.compute w.registry w.dependencyTable watched changes

/-- Plans a cycle and carries the plan out. -/
def cycle : Act Applied := do
  apply (← planCycle)

end HotReload.World
