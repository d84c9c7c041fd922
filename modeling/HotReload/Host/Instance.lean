import HotReload.Host.Body

/-!
# Lives of instances

An instance is run at most once and terminated at most once. What its body raises is
kept with it; termination releases its claims, then its resources and last its context,
each despite the failures before it.
-/
namespace HotReload.World

/-- The body in the file of a script. -/
def loadBody (s : Script) : Act (List Action) := do
  let w ← get
  let file := w.fileOf s.path
  let place := (w.files.here.join file).fold
  match w.files.lookup place with
  | .ok (.file (.script body) _) =>
    match Action.malformedLine? body with
    | some line => throw (.malformed ⟨file.toText, line⟩)
    | none => return body
  | .ok (.file (.text _) _) => return []
  | .ok _ =>
    throw (.raised "ImportError"
      ("can't find '__main__' module in " ++ Text.quote file.toText))
  | .error fault => throw (.file fault place.toText)

/-- Executes the body of an instance and keeps its variables. That the file cannot be
read, or the body raises such a failure, is a failure to load. -/
def execute (host : HostRequest → Act HostAnswer) (n : Nat) : Act Unit := do
  let s ← script n
  let file := ((← get).fileOf s.path).toText
  record (.execute n s.path s.name file)
  match ← attempt (fun e => e.isSystem || e.isText) (do
    runActions host n (← loadBody s) (initialNamespace s file)) with
  | .error e => throw (.loading s.path e)
  | .ok ns => modify fun w => { w with engine := w.engine.keep s.path n ns }

/-- Runs an instance that was not run before. -/
def run (host : HostRequest → Act HostAnswer) (n : Nat) : Act Unit := do
  let s ← script n
  if s.state ≠ .created then
    log "Script" .warning "script_run_skipped"
      [("path", .text s.path.toText), ("state", .text s.state.word)]
  else
    updateScript n ({ · with state := .running, hasContext := true })
    match ← attempt Failure.isOrdinary (execute host n) with
    | .ok () => pure ()
    | .error e =>
      updateScript n ({ · with error := some e })
      log "Script" .error "script_run_failed"
        [("path", .text s.path.toText), ("error", .text e.message), LogEntry.attached e]

/-- Releases what the engine keeps for an instance. -/
def releaseContext (n : Nat) : Act Unit := do
  let s ← script n
  record (.release n s.path)
  modify fun w => { w with engine := w.engine.release s.path n }
  if (← get).releaseFaults.contains s.path then
    throw (.raised "RuntimeError" ("release of " ++ s.path.toText))

/-- Logs what an operation raises; answers whether it raised nothing. -/
def cleanly (event : String) (path : Path) (action : Act Unit) : Act Bool := do
  match ← attempt Failure.isOrdinary action with
  | .ok () => return true
  | .error e =>
    log "Script" .error event [("path", .text path.toText), LogEntry.attached e]
    return false

/-- Closes the resources of an instance and logs each failure; answers whether there was none. -/
def closeSilently (n : Nat) : Act Bool := do
  let s ← script n
  let (result, resources) := s.resources.closeHeld
  setResources n s.resources resources
  let errors ← liftExcept result
  errors.forM fun e =>
    log "Script" .error "script_resource_close_failed"
      [("path", .text s.path.toText), ("error", .text e.literal)]
  return errors.isEmpty

/-- Terminates an instance; answers whether everything it held was released cleanly. A
second termination does nothing. -/
def terminate (n : Nat) : Act Bool := do
  let s ← script n
  if s.isOver then return true
  updateScript n ({ · with state := .terminating })
  let unwatched ← cleanly "script_unwatch_failed" s.path (scriptUnwatchAll n)
  let closed ← closeSilently n
  let released ←
    if (← script n).hasContext then cleanly "script_release_failed" s.path (releaseContext n)
    else pure true
  updateScript n ({ · with state := .terminated })
  return unwatched && closed && released

end HotReload.World
