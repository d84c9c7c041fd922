import HotReload.Operator.Routes

/-!
# The operator service

The service runs a host for as long as it is up. It starts the host before it serves; a
host that cannot be started leaves it up without one.
-/
namespace HotReload.Operator

/-- The script root is made if it is not there. -/
def makeRoot : Act Unit := do
  let w ← get
  let files ← World.liftExcept (w.files.makeDirectory w.root)
  set { w with files }

/-- Starts the host: the init script and all that it watches are loaded. -/
def startHost (settings : Settings) : Act Unit := do
  makeRoot
  World.watchPaths [Path.parse settings.scripts.initScript]
  let _ ← World.preload World.host
  World.start

/-- Starts the service; answers whether it has a host. -/
def startUp (settings : Settings) : Act Bool := do
  World.enter ⟨.info, "starting_application",
    [("app_name", .text settings.appName), ("version", .text settings.appVersion),
      ("environment", .text settings.environment),
      ("script_directory", .text settings.scripts.directory.toText)]⟩
  match ← World.attempt Failure.isSystem (startHost settings) with
  | .ok () => return true
  | .error e =>
    World.enter ⟨.error, "script_loader_initialization_failed", [("error", .text e.message)]⟩
    return false

/-- Ends the service, and with it the host if it has one. -/
def shutDown (s : Service) : Act Unit := do
  World.enter ⟨.info, "shutting_down_application", []⟩
  if s.isAttached then World.shutdown World.host

end HotReload.Operator
