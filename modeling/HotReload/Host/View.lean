import HotReload.Change.Debouncer
import HotReload.Host.Trace

/-!
# Views of a run

Traces, log entries, plans and changes as values, for whoever looks at a run from outside.
-/
namespace HotReload

def Path.toValue (p : Path) : Value := .text p.toText

def Path.listValue (ps : List Path) : Value := .list (ps.map Path.toValue)

/-- A change as its path and the word for its kind. -/
def Change.toValue (c : Change) : Value := .list [c.path.toValue, .text c.kind.word]

def Plan.summaryFields {α : Type} (p : Plan α) : List (String × Value) :=
  p.summary.map fun (name, paths) => (name, Path.listValue paths)

/-- A plan's summary, and whether it plans and has done anything. -/
def Plan.toValue {α : Type} (p : Plan α) : Value :=
  .record (p.summaryFields ++ [("is_empty", .bool p.isEmpty), ("changed", .bool p.changed)])

def HostAnswer.toValue : HostAnswer → Value
  | .done => .null
  | .cycles n => .int n
  | .plan p => p.toValue

def TraceEvent.toValue : TraceEvent → Value
  | .execute _ path name file => .strings ["execute", path.toText, name, file]
  | .release _ path => .strings ["release", path.toText]
  | .closed label => .strings ["close", label]
  | .reported name path label => .list [.text "trace", name, path, label]
  | .evaluated expression v => .list [.text "eval", .text expression, v]
  | .directories own loader => .strings ["dir", own, loader]
  | .claims paths => .list [.text "paths", Path.listValue paths]
  | .thread name => .strings ["thread", name]
  | .fetched key v => .list [.text "get", .text key, v]
  | .host request a => .list [.text "host", .text request.word, a.toValue]
  | .requested (.watch paths) => .list [.text "watch", Path.listValue paths]
  | .requested (.unwatch paths) => .list [.text "unwatch", Path.listValue paths]
  | .scheduled directory recursive => .list [.text "schedule", .text directory, .bool recursive]
  | .observerStopped => .strings ["observer_stop"]
  | .observerJoined => .strings ["observer_join"]

def LogEntry.toValue (e : LogEntry) : Value :=
  .list [.text e.level.word, .text e.event, .record e.fields]

namespace Journal

def toFields (j : Journal) : List (String × Value) :=
  [("trace", .list (j.trace.map TraceEvent.toValue)), ("log", .list (j.log.map LogEntry.toValue))]

/-- The journal without the starts and the releases of instances. -/
def withoutLives (j : Journal) : Journal :=
  { j with trace := j.trace.filter fun
      | .execute .. | .release .. => false
      | _ => true }

end Journal

end HotReload
