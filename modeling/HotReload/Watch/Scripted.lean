import HotReload.Value.Basic
import HotReload.Failure

/-!
# Scripted watches

A watch that hands out the events put into it, and whose operations fail as told. Every
call is counted before it fails, and a failing poll keeps its events.
-/
namespace HotReload

structure ScriptedWatch where
  /-- Paths with the words for what happened to them. -/
  events : List (String × String) := []
  startError : Option Failure := none
  pollError : Option Failure := none
  rearmError : Option Failure := none
  recreateError : Option Failure := none
  stopError : Option Failure := none
  recreateResult : Value := .bool true
  /-- Results of the next re-arms; then re-arming succeeds. -/
  rearmResults : List Value := []
  starts : Nat := 0
  polls : Nat := 0
  rearms : Nat := 0
  recreates : Nat := 0
  stops : Nat := 0

namespace ScriptedWatch

def outcome {α : Type} (error : Option Failure) (x : α) : Except Failure α :=
  match error with
  | some e => .error e
  | none => .ok x

def start (w : ScriptedWatch) : Except Failure Unit × ScriptedWatch :=
  (outcome w.startError (), { w with starts := w.starts + 1 })

def poll (w : ScriptedWatch) : Except Failure (List (String × String)) × ScriptedWatch :=
  let w := { w with polls := w.polls + 1 }
  match w.pollError with
  | some e => (.error e, w)
  | none => (.ok w.events, { w with events := [] })

def rearm (w : ScriptedWatch) : Except Failure Bool × ScriptedWatch :=
  let w := { w with rearms := w.rearms + 1 }
  match w.rearmError with
  | some e => (.error e, w)
  | none =>
    match w.rearmResults with
    | [] => (.ok true, w)
    | r :: rest => (.ok r.isTruthy, { w with rearmResults := rest })

def recreate (w : ScriptedWatch) : Except Failure Bool × ScriptedWatch :=
  (outcome w.recreateError w.recreateResult.isTruthy, { w with recreates := w.recreates + 1 })

def stop (w : ScriptedWatch) : Except Failure Unit × ScriptedWatch :=
  (outcome w.stopError (), { w with stops := w.stops + 1 })

end ScriptedWatch

end HotReload
