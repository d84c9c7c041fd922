import HotReload.Failure

/-!
# Observers

What delivers file events from the operating system. An observer is scheduled on a
directory, started, and at the end stopped; any of that may fail, and it may die.
-/
namespace HotReload

/-- How observers behave: what fails, and what is still alive. -/
structure ObserverBehavior where
  scheduleError : Option Failure := none
  startError : Option Failure := none
  stopError : Option Failure := none
  isDead : Bool := false
  /-- Whether each of the observer's emitters is alive. -/
  emitters : List Bool := [true]

structure Observer where
  isStarted : Bool := false
  /-- Whether it was told to stop. -/
  isStopped : Bool := false
  /-- Whether its end was awaited. -/
  isJoined : Bool := false
  deriving Repr, DecidableEq

def Observer.isAlive (o : Observer) (behavior : ObserverBehavior) : Bool :=
  o.isStarted && !o.isJoined && !behavior.isDead

end HotReload
