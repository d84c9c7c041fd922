import HotReload.Host.Trace
import HotReload.Watch.FileEvent
import HotReload.Watch.Observer

/-!
# Directory watches

A watch on the script root: an observer feeds file events to a debouncer, and settled
changes are handed out when they are asked for. The debouncer belongs to the watch and
not to the observer, so that starting, stopping and replacing observers loses nothing.
-/
namespace HotReload

structure DirectoryWatch where
  scope : EventScope
  recursive : Bool
  debouncer : Debouncer
  behavior : ObserverBehavior := {}
  /-- Every observer ever made. -/
  observers : List Observer := []
  /-- The one in use. -/
  current : Option Nat := none

/-- A watch with what its operations leave in the journal. -/
structure DirectoryWatch.Run where
  watch : DirectoryWatch
  journal : Journal := {}

/-- Operations on a watch: a failure keeps what was done before it. -/
abbrev Watching := ExceptT Failure (StateM DirectoryWatch.Run)

namespace DirectoryWatch

def record (event : TraceEvent) : Watching Unit :=
  modify fun run => { run with journal := run.journal.record event }

def log (component : String) (level : LogLevel) (event : String) (fields : List (String × Value)) :
    Watching Unit :=
  modify fun run =>
    { run with journal := run.journal.enter (.ofComponent component level event fields) }

def change (f : DirectoryWatch → DirectoryWatch) : Watching Unit :=
  modify fun run => { run with watch := f run.watch }

/-- Runs an operation and answers what it raised if `handles` says so. -/
def attempt {α : Type} (handles : Failure → Bool) (action : Watching α) :
    Watching (Except Failure α) :=
  fun run =>
    match action run with
    | (.ok x, run) => (.ok (.ok x), run)
    | (.error e, run) => (if handles e then .ok (.error e) else .error e, run)

def raise? : Option Failure → Watching Unit
  | some e => throw e
  | none => pure ()

def rootText (watch : DirectoryWatch) : String := watch.scope.root.toText

def updateObserver (n : Nat) (f : Observer → Observer) : Watching Unit :=
  change fun watch => { watch with observers := watch.observers.modify n f }

/-- Makes an observer; answers its number. -/
def makeObserver : Watching Nat := do
  let watch := (← get).watch
  change fun watch => { watch with observers := watch.observers ++ [{}] }
  return watch.observers.length

def isAlive (watch : DirectoryWatch) (n : Nat) : Bool :=
  (watch.observers[n]?).elim false (·.isAlive watch.behavior)

/-- Schedules an observer on the root and starts it. -/
def launch (n : Nat) : Watching Unit := do
  let watch := (← get).watch
  record (.scheduled watch.rootText watch.recursive)
  raise? watch.behavior.scheduleError
  raise? watch.behavior.startError
  updateObserver n ({ · with isStarted := true })

/-- Tells an observer to stop and waits for its end. -/
def halt (n : Nat) : Watching Unit := do
  record .observerStopped
  updateObserver n ({ · with isStopped := true })
  raise? (← get).watch.behavior.stopError
  if isAlive (← get).watch n then
    record .observerJoined
    updateObserver n ({ · with isJoined := true })

/-- Stops an observer; that it cannot be stopped is only logged. -/
def stopObserver (n : Nat) : Watching Unit := do
  match ← attempt (fun e => e.isSystem || e.isState) (halt n) with
  | .ok () => pure ()
  | .error e => log "FileWatch" .warning "file_watch_stop_failed" [("error", .text e.message)]

/-- Starts watching; answers whether the watch is armed. -/
def start : Watching Bool := do
  if (← get).watch.current.isSome then return true
  let n ← makeObserver
  match ← attempt Failure.isSystem (launch n) with
  | .error e =>
    log "FileWatch" .error "file_watch_start_failed"
      [("path", .text (← get).watch.rootText), ("error", .text e.message)]
    stopObserver n
    return false
  | .ok () =>
    change fun watch => { watch with current := some n }
    let watch := (← get).watch
    log "FileWatch" .info "file_watch_started"
      [("path", .text watch.rootText), ("recursive", .bool watch.recursive),
        ("ignore_patterns", .strings watch.scope.ignorePatterns)]
    return true

def stop : Watching Unit := do
  match (← get).watch.current with
  | none => pure ()
  | some n =>
    change fun watch => { watch with current := none }
    stopObserver n
    log "FileWatch" .info "file_watch_stopped" [("path", .text (← get).watch.rootText)]

def recreate : Watching Bool := do
  stop
  start

/-- Whether the watch can still deliver events; `rootExists` is asked only of a live observer. -/
def rearm (rootExists : Except Failure Bool) : Watching Bool := do
  let watch := (← get).watch
  match watch.current with
  | none => return false
  | some n =>
    if !isAlive watch n then return false
    if !(← liftExcept rootExists) then return false
    return watch.behavior.emitters.any id
where
  liftExcept {α : Type} : Except Failure α → Watching α
    | .ok x => pure x
    | .error e => throw e

/-- The changes that have settled at a time. -/
def poll (now : Float) : Watching (List Change) := do
  let (settled, debouncer) := (← get).watch.debouncer.drain now
  change fun watch => { watch with debouncer }
  if !settled.isEmpty then
    log "Debouncer" .debug "releasing_debounced_changes" [("count", .int settled.length)]
  return settled

/-- Takes an event from an observer; `resolve` finds the location of a path. -/
def deliver (resolve : Path → Option Path) (now : Float) (event : FileEvent) : Watching Unit := do
  let watch := (← get).watch
  (watch.scope.changes resolve event).forM fun c => do
    log "ScriptFileHandler" .debug ("file_" ++ c.kind.word) [("path", .text c.path.toText)]
    change fun watch => { watch with debouncer := watch.debouncer.add now c }

end DirectoryWatch

end HotReload
