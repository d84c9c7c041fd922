import HotReload.Script.Action
import HotReload.Value.Access

/-!
# Reading script bodies

A body is written as a list of actions, each a list of the action's name and what it
takes. An action that cannot be read stands for a line that is not a script.
-/
namespace HotReload

namespace Value

mutual

/-- How deeply lists and records are nested in a value. -/
def depth : Value → Nat
  | .list xs => depths xs + 1
  | .record fs => fieldDepths fs + 1
  | _ => 0

def depths : List Value → Nat
  | [] => 0
  | v :: rest => max v.depth (depths rest)

def fieldDepths : List (String × Value) → Nat
  | [] => 0
  | (_, v) :: rest => max v.depth (fieldDepths rest)

end

end Value

namespace Failure

/-- A failure given as its kind and perhaps an argument. -/
def ofValue? : Value → Option Failure
  | .list (.text kind :: rest) => some (ofKind kind ((rest.head?.map (·.display)).getD ""))
  | .text kind => some (ofKind kind "")
  | _ => none

end Failure

namespace HostRequest

/-- A request by its word and what it takes. -/
def read (word : String) (args : List Value) : HostRequest :=
  let texts := ((args.headD .null).items).map (·.display)
  match word with
  | "reconcile" => .reconcile
  | "preload" => .preload
  | "start" => .start
  | "shutdown" => .shutdown
  | "watch" => .watch texts
  | "unwatch" => .unwatch texts
  | _ => .event ((args.headD .null).display) (((args[1]?).getD Value.null).display)

end HostRequest

namespace Action

/-- An action by its name and what it takes, when `inner` reads the actions inside it. -/
def readWith (inner : Value → Action) (name : String) (args : List Value) : Action :=
  let texts := args.map (·.display)
  let first := texts.headD ""
  let second := (args[1]?).getD .null
  match name with
  | "depend" => .depend first
  | "watch" | "watch_all" => .watch texts
  | "unwatch" | "unwatch_all" => .unwatch texts
  | "set" => .set first second
  | "defer" => .defer first (Failure.ofValue? second)
  | "close" => .close
  | "trace" => .trace (args.headD .null)
  | "eval" => .evaluate first
  | "dir" => .directory
  | "paths" => .paths
  | "thread" => .thread
  | "get" => .fetch first second
  | "put" => .put first second
  | "drop" => .drop first
  | "count" => .count first
  | "raise" => .raise (Failure.ofKind first ((texts[1]?).getD ""))
  | "log" => .log first ((texts[1]?).getD "") ((args[2]?).getD Value.null).fields
  | "once" => .once first (inner second)
  | "host" => .host (HostRequest.read first (args.drop 1))
  | "write" => .write first (second.items.map inner)
  | "remove" => .remove first
  | _ => .malformed

/-- Reads an action that is nested at most so deep. -/
def readWithin : Nat → Value → Action
  | 0, _ => .malformed
  | depth + 1, .list (.text name :: args) => readWith (readWithin depth) name args
  | _, _ => .malformed

def ofValue (v : Value) : Action := readWithin v.depth v

/-- A body from a list of actions. -/
def bodyOf (v : Value) : List Action := v.items.map ofValue

end Action

end HotReload
