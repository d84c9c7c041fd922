import HotReload.Log.Entry
import HotReload.Settings.Basic
import HotReload.Value.Printer

/-!
# Log output

Entries are written as lines, as JSON or for a console, above a level, with the
application, its environment and the thread that logged them.
-/
namespace HotReload

/-- What stands for the time at which an entry is written. -/
structure LogContext where
  time : String
  thread : String

/-- Where and how entries are written. -/
structure LogOutput where
  level : LogLevel
  /-- Whether lines are JSON. -/
  isJson : Bool
  /-- The file for the lines; without one they go to standard output. -/
  file : Option Path

namespace LogOutput

def levelOf : String → LogLevel
  | "DEBUG" => .debug
  | "WARNING" => .warning
  | "ERROR" => .error
  | "CRITICAL" => .critical
  | _ => .info

def ofSettings (s : LoggingSettings) : LogOutput where
  level := levelOf s.level
  isJson := s.format = "json"
  file := s.filePath

def writes (o : LogOutput) (e : LogEntry) : Bool := o.level.weight ≤ e.level.weight

/-- The fields of an entry's line, in order; fields that the entry has keep their places. -/
def lineFields (settings : Settings) (context : LogContext) (e : LogEntry) :
    List (String × Value) :=
  let fields := LogEntry.withFields e.fields
    [("event", .text e.event), ("level", .text e.level.word), ("timestamp", .text context.time)]
  let fields :=
    if (Value.field? "app" fields).isSome then fields
    else Value.setField "app" (.text settings.appName) fields
  LogEntry.withFields fields
    [("environment", .text settings.environment), ("thread", .text context.thread)]

/-- Characters that a text between others is quoted for. -/
def needsQuotes (c : Char) : Bool :=
  c = ' ' || c = '\t' || c = '=' || c = '\r' || c = '\n' || c = '"' || c = Text.apostrophe

def consoleValue : Value → String
  | .text s => if s.toList.any needsQuotes then Text.quote s else s
  | v => v.literal

/-- A text with blanks behind it up to a width. -/
def padded (width : Nat) (s : String) : String :=
  s ++ String.ofList (List.replicate (width - s.length) ' ')

def withoutLastBlanks (s : String) : String :=
  String.ofList ((s.toList.reverse.dropWhile (· = ' ')).reverse)

/-- The keys that have places of their own in a line for a console. -/
def placedKeys : List String := ["timestamp", "level", "event", "logger", "logger_name"]

/-- The part of a console line for a key with a place of its own. -/
def placedPart (key text : String) : String :=
  match key with
  | "timestamp" => text
  | "level" => "[" ++ padded 9 text ++ "]"
  | "event" => padded 30 text
  | _ => "[" ++ text ++ "]"

def consoleLine (fields : List (String × Value)) : String :=
  let placed := placedKeys.filterMap fun key =>
    (Value.field? key fields).map fun v => placedPart key v.display
  let others := (fields.filter fun (k, _) => !placedKeys.contains k).mergeSort fun a b => a.1 ≤ b.1
  let parts := placed ++ others.map fun (k, v) => k ++ "=" ++ consoleValue v
  withoutLastBlanks (String.intercalate " " (parts.filter (· ≠ "")))

def line (o : LogOutput) (settings : Settings) (context : LogContext) (e : LogEntry) : String :=
  let fields := lineFields settings context e
  if o.isJson then (Value.record fields).toJson else consoleLine fields

end LogOutput

end HotReload
