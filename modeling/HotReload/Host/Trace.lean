import HotReload.Claim.Scoped
import HotReload.Log.Entry
import HotReload.Plan.Basic
import HotReload.Script.Action

/-!
# Traces

What can be seen of a run from outside, in order: the starts and the ends of script
instances, what their bodies report, and what happens to the observers.
-/
namespace HotReload

/-- What a host request answers; instances stand in plans by their numbers. -/
inductive HostAnswer where
  | done
  | cycles (n : Nat)
  | plan (p : Plan Nat)

inductive TraceEvent where
  /-- An instance's body is about to run. -/
  | execute (script : Nat) (path : Path) (name file : String)
  /-- An instance's context is about to be released. -/
  | release (script : Nat) (path : Path)
  | closed (label : String)
  | reported (name path label : Value)
  | evaluated (expression : String) (v : Value)
  | directories (script loader : String)
  | claims (paths : List Path)
  | thread (name : String)
  | fetched (key : String) (v : Value)
  | host (request : HostRequest) (answer : HostAnswer)
  /-- Paths were asked for by a script that runs without a reconciler. -/
  | requested (request : ClaimRequest)
  | scheduled (directory : String) (recursive : Bool)
  | observerStopped
  | observerJoined

/-- What a run leaves behind for the outside. -/
structure Journal where
  trace : List TraceEvent := []
  log : List LogEntry := []

namespace Journal

def record (event : TraceEvent) (j : Journal) : Journal := { j with trace := j.trace ++ [event] }

def enter (entry : LogEntry) (j : Journal) : Journal := { j with log := j.log ++ [entry] }

def append (j later : Journal) : Journal :=
  ⟨j.trace ++ later.trace, j.log ++ later.log⟩

end Journal

end HotReload
