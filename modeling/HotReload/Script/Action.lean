import HotReload.Failure
import HotReload.Log.Entry

/-!
# Script bodies

What a script does, one action after the other.
-/
namespace HotReload

/-- What a script may ask of the host that runs it. -/
inductive HostRequest where
  | reconcile
  | preload
  | start
  | shutdown
  | watch (paths : List String)
  | unwatch (paths : List String)
  /-- Reports a change of a path, by the word for its kind. -/
  | event (path kind : String)
  deriving Repr, DecidableEq

def HostRequest.word : HostRequest → String
  | .reconcile => "reconcile"
  | .preload => "preload"
  | .start => "start"
  | .shutdown => "shutdown"
  | .watch _ => "watch"
  | .unwatch _ => "unwatch"
  | .event _ _ => "event"

inductive Action where
  | depend (path : String)
  | watch (paths : List String)
  | unwatch (paths : List String)
  | set (name : String) (v : Value)
  /-- Registers a closer that reports its label and then fails if it is to fail. -/
  | defer (label : String) (failure : Option Failure)
  | close
  | trace (label : Value)
  /-- Reports the value of a variable, or of variables joined by plus signs. -/
  | evaluate (expression : String)
  | directory
  | paths
  | thread
  | fetch (key : String) (default : Value)
  | put (key : String) (v : Value)
  | drop (key : String)
  | count (key : String)
  | raise (failure : Failure)
  | log (method event : String) (fields : List (String × Value))
  /-- An action for the first time that its key is met. -/
  | once (key : String) (action : Action)
  | host (request : HostRequest)
  | write (path : String) (body : List Action)
  | remove (path : String)
  /-- A line that is not a script. -/
  | malformed
  deriving Inhabited

namespace Action

/-- Whether the action's line cannot be read as a script. -/
def isMalformed : Action → Bool
  | malformed => true
  | once _ action => action.isMalformed
  | _ => false

/-- The number of the first line that is not a script. -/
def malformedLine? (body : List Action) : Option Nat :=
  (body.findIdx? isMalformed).map (· + 1)

end Action

/-- What a file holds. -/
inductive FileContent where
  | script (body : List Action)
  | text (s : String)

end HotReload
