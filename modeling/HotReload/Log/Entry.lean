import HotReload.Failure
import HotReload.Value.Basic

/-!
# Log entries

An entry has a level, the name of what happened and fields. Entries of a component
begin with its name; entries of a script begin with the script's name and path.
-/
namespace HotReload

inductive LogLevel where
  | debug
  | info
  | warning
  | error
  | critical
  deriving Repr, DecidableEq

namespace LogLevel

def word : LogLevel → String
  | .debug => "debug"
  | .info => "info"
  | .warning => "warning"
  | .error => "error"
  | .critical => "critical"

/-- The level that a logger's method logs at. -/
def ofMethod? : String → Option LogLevel
  | "debug" => some .debug
  | "info" => some .info
  | "warning" | "warn" => some .warning
  | "error" | "err" | "exception" => some .error
  | "critical" | "fatal" => some .critical
  | _ => none

/-- Levels in order of weight. -/
def weight : LogLevel → Nat
  | .debug => 10
  | .info => 20
  | .warning => 30
  | .error => 40
  | .critical => 50

end LogLevel

structure LogEntry where
  level : LogLevel
  event : String
  fields : List (String × Value)

namespace LogEntry

/-- Fields with further ones set in them. -/
def withFields (bound fields : List (String × Value)) : List (String × Value) :=
  fields.foldl (fun fs (k, v) => Value.setField k v fs) bound

/-- An entry of one of the host's components. -/
def ofComponent (component : String) (level : LogLevel) (event : String)
    (fields : List (String × Value)) : LogEntry :=
  ⟨level, event, withFields [("component", .text component)] fields⟩

/-- An entry that a script logs. -/
def ofScript (name : String) (path : Path) (level : LogLevel) (event : String)
    (fields : List (String × Value)) : LogEntry :=
  ⟨level, event, withFields [("script", .text name), ("path", .text path.toText)] fields⟩

/-- The field for a failure attached to an entry. -/
def attached (f : Failure) : String × Value := ("exc_info", .text f.kindName)

end LogEntry

end HotReload
