import HotReload.Host.Lifecycle
import HotReload.Settings.Basic

/-!
# Setting up a host

A host is set up from settings, with some of them overridden.
-/
namespace HotReload

namespace DirectoryWatch

/-- What of a watch's settings is overridden. -/
structure Overrides where
  debounceDelayMs : Option Int := none
  ignorePatterns : Option (List String) := none
  recursive : Option Bool := none

/-- A watch on a root, with its location. -/
def create (settings : WatcherSettings) (root location : Path) (o : Overrides) :
    DirectoryWatch where
  scope :=
    { root, rootLocation := location
      ignorePatterns := o.ignorePatterns.getD settings.ignorePatterns }
  recursive := o.recursive.getD settings.recursive
  debouncer :=
    { delay := Debouncer.secondsOfMillis (o.debounceDelayMs.getD settings.debounceDelayMs) }

end DirectoryWatch

/-- A watch whose observers, if it makes any, behave in a certain way. -/
def Watch.behaving (behavior : ObserverBehavior) : Watch → Watch
  | .scripted w => .scripted w
  | .directory w => .directory { w with behavior }

/-- How a host is set up, apart from the settings. -/
structure HostOptions where
  root : Path
  /-- Where the relative paths of files that scripts write and remove start. -/
  base : Path
  /-- Without one, commits run on a thread of the host's own. -/
  executor : Option Executor := none
  /-- Without one, the host watches its root, if the settings say so. -/
  watch : Option Watch := none
  bindings : List (String × Value) := []
  /-- Milliseconds between rounds of the poll loop; zero counts as not given. -/
  pollIntervalMs : Option Int := none
  /-- Limit on the cycles of a preload; zero counts as not given. -/
  preloadMaxCycles : Option Int := none

namespace World

def orElseZero (given : Option Int) (default : Int) : Int :=
  match given with
  | some n => if n = 0 then default else n
  | none => default

/-- A host that has not done anything yet. -/
def create (settings : Settings) (files : FileTree FileContent) (o : HostOptions) : World where
  root := o.root
  base := o.base
  files := files
  watch := match o.watch with
    | some watch => some watch
    | none =>
      if settings.watcher.enabled then
        some (.directory (.create settings.watcher o.root ((files.resolve? o.root).getD o.root) {}))
      else none
  executor := o.executor.getD (.pool false)
  pollIntervalMs := orElseZero o.pollIntervalMs settings.scripts.pollIntervalMs
  preloadMaxCycles := orElseZero o.preloadMaxCycles settings.scripts.preloadMaxCycles
  bindings := o.bindings
  poolThread := settings.scripts.executorThreadName ++ "_0"

end World

end HotReload
