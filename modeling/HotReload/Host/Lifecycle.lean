import HotReload.Host.Cycle
import HotReload.Host.Registration

/-!
# Life of a host

Commits are handed to an executor or done at once; preloading repeats cycles until no
new path is watched; shutting down terminates everything. `respond` is the host as its
scripts see it.
-/
namespace HotReload.World

/-- Runs the new instances of a commit, and then terminates its old ones. -/
def commit (host : HostRequest → Act HostAnswer) (c : Commit) : Act Unit := do
  c.toRun.forM fun n => do
    let s ← script n
    match ← attempt Failure.isOrdinary (run host n) with
    | .ok () => pure ()
    | .error e =>
      log "Reconciler" .error "script_run_failed"
        [("path", .text s.path.toText), LogEntry.attached e]
  c.toTerminate.forM fun n => do
    let s ← script n
    match ← attempt Failure.isOrdinary (terminate n) with
    | .ok true => pure ()
    | .ok false =>
      log "Reconciler" .warning "script_terminated_with_errors" [("path", .text s.path.toText)]
    | .error e =>
      log "Reconciler" .error "script_terminate_failed"
        [("path", .text s.path.toText), LogEntry.attached e]

def enqueue (c : Commit) : Act Unit := modify fun w => { w with tasks := w.tasks ++ [c] }

/-- Hands a commit to the executor. -/
def submit (host : HostRequest → Act HostAnswer) (c : Commit) : Act Unit := do
  match (← get).executor with
  | .inline => commit host c
  | .refusable none => commit host c
  | .refusable (some e) => throw e
  | .queue => enqueue c
  | .pool false => enqueue c
  | .pool true => throw (.raised "RuntimeError" "cannot schedule new futures after shutdown")
  | .loop false => enqueue c
  | .loop true => throw (.raised "RuntimeError" "Event loop is closed")

/-- Runs one cycle. A commit that the executor cannot take is terminated at once: what it
replaces is out of the registry, and nothing else would close it. -/
def reconcile (host : HostRequest → Act HostAnswer) : Act (Plan Nat) := do
  if (← get).isClosed then return {}
  let done ← cycle
  let c := done.commit
  if !(c.toRun.isEmpty && c.toTerminate.isEmpty) then
    match ← attempt Failure.isState (submit host c) with
    | .ok () => pure ()
    | .error e =>
      log "Reconciler" .error "commit_dispatch_failed"
        [("error", .text e.message), ("unstarted", .int c.toRun.length)]
      commit host ⟨[], c.toTerminate⟩
  return done.plan

/-- Runs cycles until the number of watched paths stays the same; answers how many were
run, and whether that ended it. -/
def preloadCycles (host : HostRequest → Act HostAnswer) : Nat → Nat → Act (Nat × Bool)
  | 0, cycles => return (cycles, false)
  | left + 1, cycles => do
    if (← get).isClosed then return (cycles, true)
    let before := (← get).watched.length
    let done ← cycle
    commit host done.commit
    if (← get).watched.length = before then return (cycles + 1, true)
    preloadCycles host left (cycles + 1)

/-- Runs cycles, each with its commit, until nothing new is watched. -/
def preload (host : HostRequest → Act HostAnswer) : Act Nat := do
  let (cycles, settled) ← preloadCycles host (← get).preloadMaxCycles.toNat 0
  if !settled then
    log "Reconciler" .warning "preload_cycle_limit_reached" [("cycles", .int cycles)]
  log "Reconciler" .info "preload_complete"
    [("cycles", .int cycles), ("scripts", .int (← get).registry.length)]
  return cycles

/-- Seconds between rounds of the poll loop. -/
def pollInterval (w : World) : Float := Debouncer.secondsOfMillis w.pollIntervalMs

/-- Starts the thread of the poll loop. One that could not be started stays its thread. -/
def startPolling : Act Unit := do
  let w ← get
  set { w with isPolling := true, isStranded := w.lacksThreads }
  if w.lacksThreads then throw (.raised "RuntimeError" "can't start new thread")
  log "Reconciler" .info "reconciler_started"
    [("path", .text w.rootText), ("poll_interval_ms", .int (wholePart (w.pollInterval * 1000.0)))]

/-- Starts the poll loop, unless it was started. -/
def start : Act Unit := do
  let w ← get
  if w.isClosed then throw (.raised "RuntimeError" "reconciler has been shut down")
  if !w.isPolling then startPolling

/-- The longest interval between rounds, in milliseconds, twice which the system can wait. -/
def joinLimitMs : Int := 4611686018427

/-- What waiting for the end of the poll loop raises. -/
def joinFault? (w : World) : Option Failure :=
  if !w.isPolling then none
  else if w.isStranded then some (.raised "RuntimeError" "cannot join thread before it is started")
  else if joinLimitMs < w.pollIntervalMs then
    some (.raised "OverflowError" "timestamp out of range for platform time_t")
  else none

/-- Ends the poll loop and waits for it. -/
def stopPolling : Act Unit := do
  let w ← get
  set { w with isPolling := false, isStranded := false }
  match w.joinFault? with
  | some e => throw e
  | none => pure ()

/-- One round of the poll loop: what a cycle raises is only logged. -/
def pollRound (host : HostRequest → Act HostAnswer) : Act Unit := do
  match ← attempt Failure.isOrdinary (reconcile host) with
  | .ok _ => pure ()
  | .error e => log "Reconciler" .error "reconcile_cycle_failed" [LogEntry.attached e]

/-- Runs a waiting commit on the pool's thread; what escapes it is dropped. -/
def runPooled (host : HostRequest → Act HostAnswer) (c : Commit) : Act Unit := do
  let caller := (← get).thread
  modify fun w => { w with thread := w.poolThread }
  let _ ← attempt (fun _ => true) (commit host c)
  modify fun w => { w with thread := caller }

/-- Runs waiting commits in order, and those that come while they run. -/
def drainWith (runTask : Commit → Act Unit) : Nat → Act Unit
  | 0 => pure ()
  | fuel + 1 => do
    let w ← get
    match w.tasks with
    | [] => pure ()
    | c :: rest =>
      set { w with tasks := rest }
      runTask c
      drainWith runTask fuel

/-- How many commits one drain runs at most, apart from those that waited when a pool is drained. -/
def drainLimit : Nat := 10000

def drainPool (host : HostRequest → Act HostAnswer) : Act Unit := do
  drainWith (runPooled host) ((← get).tasks.length + drainLimit)

/-- Runs a waiting commit on an event loop, which drops most failures. -/
def runLooped (host : HostRequest → Act HostAnswer) (c : Commit) : Act Unit := do
  let _ ← attempt (fun e => !e.leavesLoop) (commit host c)

/-- Runs what the executor has taken and not yet run, if it does so by itself. -/
def settle (host : HostRequest → Act HostAnswer) : Act Unit := do
  match (← get).executor with
  | .pool _ => drainPool host
  | .loop _ => drainWith (runLooped host) drainLimit
  | _ => pure ()

/-- Runs the first waiting commits; answers how many still wait. -/
def pump (host : HostRequest → Act HostAnswer) (n : Nat) : Act Nat := do
  drainWith (commit host) n
  return (← get).tasks.length

/-- Closes the event loop, which forgets what waits. -/
def closeLoop : Act Unit :=
  modify fun w => { w with executor := .loop true, tasks := [] }

/-- Closes the pool and waits for its commits; a commit cannot wait for itself. -/
def closePool (host : HostRequest → Act HostAnswer) : Act Unit := do
  match (← get).executor with
  | .pool _ =>
    modify fun w => { w with executor := .pool true }
    let w ← get
    if w.thread = w.poolThread then throw (.raised "RuntimeError" "cannot join current thread")
    drainPool host
  | _ => pure ()

def stopWatch : Act Unit := do
  match (← get).watch with
  | none => pure ()
  | some (.scripted s) => scripted s ScriptedWatch.stop
  | some (.directory d) => watching d DirectoryWatch.stop

/-- Ends polling and terminates every registered instance. -/
def shutdown (host : HostRequest → Act HostAnswer) : Act Unit := do
  stopPolling
  closePool host
  if !(← get).isClosed then
    modify fun w => { w with isClosed := true }
    let count := (← get).registry.length
    let failures ← terminateAll
    modify fun w => { w with claims := [] }
    stopWatch
    log "Reconciler" .info "reconciler_shutdown"
      [("terminated", .int count), ("failures", .int failures)]

/-- Puts an event into a scripted watch. -/
def pushEvent (path kind : String) : Act Unit :=
  modify fun w =>
    match w.watch with
    | some (.scripted s) =>
      { w with watch := some (.scripted { s with events := s.events ++ [(path, kind)] }) }
    | _ => w

/-- Answers one request, with `host` for the scripts that it runs. -/
def answer (host : HostRequest → Act HostAnswer) : HostRequest → Act HostAnswer
  | .reconcile => do return .plan (← reconcile host)
  | .preload => do return .cycles (← preload host)
  | .start => do start; return .done
  | .shutdown => do shutdown host; return .done
  | .watch paths => do watchPaths (paths.map Path.parse); return .done
  | .unwatch paths => do unwatchPaths (paths.map Path.parse); return .done
  | .event path kind => do pushEvent path kind; return .done

/-- How deep requests of scripts may nest: a script that a request runs may
make requests of its own. -/
def depthLimit : Nat := 60

/-- The host as scripts see it, for requests nested at most so deep. -/
def hostAt : Nat → HostRequest → Act HostAnswer
  | 0, _ => throw (.raised "RecursionError" "maximum recursion depth exceeded")
  | depth + 1, request => answer (hostAt depth) request

/-- The host as its scripts see it. -/
def host : HostRequest → Act HostAnswer := hostAt depthLimit

end HotReload.World
