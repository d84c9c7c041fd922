import HotReload.Settings.Field
import HotReload.Value.Reader

/-!
# Settings

Settings come from environment variables, one section after the other. A section can
also be given as a whole, as an object in JSON, whose fields go before the variables of
the section.
-/
namespace HotReload

/-- Environment variables. Names count in any case; of two spellings the later counts. -/
abbrev Environment := List (String × String)

namespace Environment

def get? (env : Environment) (name : String) : Option String :=
  (env.reverse.find? fun (k, _) => Text.lower k = Text.lower name).map (·.2)

end Environment

/-- Why settings cannot be had. -/
inductive SettingsFault where
  /-- Fields of a section, or of the whole, are rejected. -/
  | rejected (model : String) (faults : List FieldFault)
  /-- The variable of a field is not JSON. -/
  | unreadable (field : String)
  deriving Repr

namespace SettingsFault

def kindName : SettingsFault → String
  | rejected _ _ => "ValidationError"
  | unreadable _ => "SettingsError"

def message : SettingsFault → String
  | rejected name _ => name
  | unreadable field =>
    "error parsing value for field \"" ++ field ++ "\" from source \"EnvSettingsSource\""

end SettingsFault

structure ScriptSettings where
  directory : Path
  initScript : String
  pollIntervalMs : Int
  preloadMaxCycles : Int
  executorThreadName : String

structure WatcherSettings where
  enabled : Bool
  recursive : Bool
  debounceDelayMs : Int
  ignorePatterns : List String

structure ApiSettings where
  corsOrigins : List String

structure LoggingSettings where
  level : String
  /-- Whether entries are written as JSON. -/
  format : String
  filePath : Option Path

structure Settings where
  appName : String
  appVersion : String
  environment : String
  scripts : ScriptSettings
  watcher : WatcherSettings
  api : ApiSettings
  logging : LoggingSettings

namespace Settings

/-- A section: its name, the name of its model, how its variables begin, its fields, and
those among them whose variables hold JSON. -/
structure Section where
  name : String
  model : String
  stem : String
  fields : List String
  jsonFields : List String := []

/-- Reads a variable in JSON; null counts as unset. -/
def jsonVariable (field : String) (text : String) : Except SettingsFault (Option Value) :=
  match Value.ofJson text with
  | .ok .null => .ok none
  | .ok v => .ok (some v)
  | .error _ => .error (.unreadable field)

/-- What the variables of a section say. -/
def Section.fromEnvironment (s : Section) (env : Environment) :
    Except SettingsFault (List (String × Value)) :=
  s.fields.foldlM (fun found field => do
    match env.get? (s.stem ++ field) with
    | none => return found
    | some text =>
      if s.jsonFields.contains field then
        match ← jsonVariable field text with
        | some v => return found ++ [(field, v)]
        | none => return found
      else return found ++ [(field, .text text)]) []

/-- The fields of an object, those of the section under the section's names. -/
def Section.rename (s : Section) (given : List (String × Value)) : List (String × Value) :=
  given.foldl (fun found (k, v) =>
    let name := (s.fields.find? fun f => Text.lower f = Text.lower k).getD k
    Value.setField name v found) []

/-- The values of a section: what is given, and else what the variables say. -/
def Section.values (s : Section) (given : List (String × Value)) (env : Environment) :
    Except SettingsFault (List (String × Value)) := do
  let found ← s.fromEnvironment env
  return given ++ found

/-- The faults of given fields that the section does not have. -/
def Section.extras (s : Section) (given : List (String × Value)) : List FieldFault :=
  given.filterMap fun (k, _) =>
    if s.fields.contains k then none
    else some ⟨"extra_forbidden", [.name k], "Extra inputs are not permitted"⟩

/-- A field with a value, read, or its default. -/
def read {α : Type} (values : List (String × Value)) (name : String) (default : α)
    (check : String → Value → Checked α) : Checked α :=
  match Value.field? name values with
  | some v => check name v
  | none => .ok default

def Section.conclude {α : Type} (s : Section) (x : α) (faults : List FieldFault) :
    Except SettingsFault α :=
  if faults.isEmpty then .ok x else .error (.rejected s.model faults)

def scriptSection : Section where
  name := "scripts"
  model := "ScriptSettings"
  stem := "SCRIPTS_"
  fields := ["directory", "init_script", "poll_interval_ms", "preload_max_cycles",
    "executor_thread_name"]

/-- The script that is watched first; it must lie below the script root. -/
def checkInitScript (name : String) (v : Value) : Checked String :=
  let c := Field.text name v
  if c.faults.isEmpty && (Path.parse c.value).isAbsolute then
    .fault "" name "value_error" "Value error, init_script must be relative to the script directory"
  else c

def readScripts (given : List (String × Value)) (env : Environment) :
    Except SettingsFault ScriptSettings := do
  let s := scriptSection
  let values ← s.values given env
  let directory := read values "directory" (Path.parse "scripts.d") Field.path
  let initScript := read values "init_script" "init.py" checkInitScript
  let pollIntervalMs := read values "poll_interval_ms" 1000 fun n => Field.int n (some 10) none
  let preloadMaxCycles :=
    read values "preload_max_cycles" 64 fun n => Field.int n (some 1) (some 10000)
  let executorThreadName := read values "executor_thread_name" "script-sync" Field.text
  s.conclude
    { directory := directory.value, initScript := initScript.value
      pollIntervalMs := pollIntervalMs.value, preloadMaxCycles := preloadMaxCycles.value
      executorThreadName := executorThreadName.value }
    (directory.faults ++ initScript.faults ++ pollIntervalMs.faults ++ preloadMaxCycles.faults
      ++ executorThreadName.faults ++ s.extras given)

def watcherSection : Section where
  name := "watcher"
  model := "WatcherSettings"
  stem := "WATCHER_"
  fields := ["enabled", "recursive", "debounce_delay_ms", "ignore_patterns"]
  jsonFields := ["ignore_patterns"]

/-- Editor swap files and version control data, which never hold scripts. -/
def defaultIgnorePatterns : List String :=
  ["*.pyc", "__pycache__", "*.swp", "*.swx", "*~", ".#*", ".git", ".DS_Store"]

def readWatcher (given : List (String × Value)) (env : Environment) :
    Except SettingsFault WatcherSettings := do
  let s := watcherSection
  let values ← s.values given env
  let enabled := read values "enabled" true Field.bool
  let recursive := read values "recursive" true Field.bool
  let debounceDelayMs :=
    read values "debounce_delay_ms" 100 fun n => Field.int n (some 0) (some 5000)
  let ignorePatterns := read values "ignore_patterns" defaultIgnorePatterns Field.texts
  s.conclude
    { enabled := enabled.value, recursive := recursive.value
      debounceDelayMs := debounceDelayMs.value, ignorePatterns := ignorePatterns.value }
    (enabled.faults ++ recursive.faults ++ debounceDelayMs.faults ++ ignorePatterns.faults
      ++ s.extras given)

def apiSection : Section where
  name := "api"
  model := "APISettings"
  stem := "API_"
  fields := ["cors_origins"]
  jsonFields := ["cors_origins"]

def readApi (given : List (String × Value)) (env : Environment) :
    Except SettingsFault ApiSettings := do
  let s := apiSection
  let values ← s.values given env
  let corsOrigins :=
    read values "cors_origins" ["http://localhost:3000", "http://127.0.0.1:3000"] Field.texts
  s.conclude { corsOrigins := corsOrigins.value } (corsOrigins.faults ++ s.extras given)

def loggingSection : Section where
  name := "logging"
  model := "LoggingSettings"
  stem := "LOG_"
  fields := ["level", "format", "file_path"]

/-- The upper case of the letters that can be part of a level's name. -/
def upperLetter (c : Char) : Char := if c = 'ı' then 'I' else c.toUpper

def checkLevel (name : String) (v : Value) : Checked String :=
  let c := Field.text name v
  let level := c.value.map upperLetter
  if !c.faults.isEmpty then c
  else if ["DEBUG", "INFO", "WARNING", "ERROR", "CRITICAL"].contains level then .ok level
  else .fault "" name "value_error" ("Value error, unknown log level: " ++ c.value)

def checkFormat (name : String) : Value → Checked String
  | .text "json" => .ok "json"
  | .text "console" => .ok "console"
  | _ => .fault "" name "literal_error" "Input should be 'json' or 'console'"

def readLogging (given : List (String × Value)) (env : Environment) :
    Except SettingsFault LoggingSettings := do
  let s := loggingSection
  let values ← s.values given env
  let level := read values "level" "INFO" checkLevel
  let format := read values "format" "json" checkFormat
  let filePath := read values "file_path" none Field.pathOrNone
  s.conclude { level := level.value, format := format.value, filePath := filePath.value }
    (level.faults ++ format.faults ++ filePath.faults ++ s.extras given)

/-- What a variable for a whole section says. -/
def givenSection (s : Section) (env : Environment) : Except SettingsFault (Option Value) :=
  match env.get? s.name with
  | none => .ok none
  | some text => jsonVariable s.name text

/-- Faults of a section that was given as a whole, as faults of the settings. -/
def placedFaults (s : Section) : SettingsFault → List FieldFault
  | .rejected _ faults => faults.map (·.inside (.name s.name))
  | fault => [⟨"value_error", [.name s.name], "Value error, " ++ fault.message⟩]

/-- Reads a section. One that is given as a whole contributes its faults; one that is not
is rejected by itself. -/
def readSection {α : Type} (s : Section) (given : Option Value) (standIn : α)
    (read : List (String × Value) → Except SettingsFault α) : Except SettingsFault (Checked α) :=
  match given with
  | none => (read []).map .ok
  | some (.record fields) =>
    match read (s.rename fields) with
    | .ok x => .ok (.ok x)
    | .error fault => .ok ⟨standIn, placedFaults s fault⟩
  | some _ =>
    .ok (.fault standIn s.name "model_type"
      ("Input should be a valid dictionary or instance of " ++ s.model))

def variableOr (env : Environment) (name default : String) : String := (env.get? name).getD default

/-- The settings of an environment. -/
def ofEnvironment (env : Environment) : Except SettingsFault Settings := do
  let givenScripts ← givenSection scriptSection env
  let givenWatcher ← givenSection watcherSection env
  let givenApi ← givenSection apiSection env
  let givenLogging ← givenSection loggingSection env
  let scripts ← readSection scriptSection givenScripts
    ⟨Path.parse "", "", 0, 0, ""⟩ (readScripts · env)
  let watcher ← readSection watcherSection givenWatcher ⟨false, false, 0, []⟩ (readWatcher · env)
  let api ← readSection apiSection givenApi ⟨[]⟩ (readApi · env)
  let logging ← readSection loggingSection givenLogging ⟨"", "", none⟩ (readLogging · env)
  let faults := scripts.faults ++ watcher.faults ++ api.faults ++ logging.faults
  if faults.isEmpty then
    return {
      appName := variableOr env "app_name" "ScriptWatch"
      appVersion := variableOr env "app_version" "1.0.0"
      environment := variableOr env "environment" "development"
      scripts := scripts.value, watcher := watcher.value, api := api.value
      logging := logging.value }
  else .error (.rejected "Settings" faults)

def isDevelopment (s : Settings) : Bool :=
  ["development", "dev", "local"].contains (Text.lower s.environment)

/-- The settings as a record. -/
def toValue (s : Settings) : Value :=
  .record [("app_name", .text s.appName), ("app_version", .text s.appVersion),
    ("environment", .text s.environment),
    ("scripts", .record [("directory", .text s.scripts.directory.toText),
      ("init_script", .text s.scripts.initScript),
      ("poll_interval_ms", .int s.scripts.pollIntervalMs),
      ("preload_max_cycles", .int s.scripts.preloadMaxCycles),
      ("executor_thread_name", .text s.scripts.executorThreadName)]),
    ("watcher", .record [("enabled", .bool s.watcher.enabled),
      ("recursive", .bool s.watcher.recursive),
      ("debounce_delay_ms", .int s.watcher.debounceDelayMs),
      ("ignore_patterns", .strings s.watcher.ignorePatterns)]),
    ("api", .record [("cors_origins", .strings s.api.corsOrigins)]),
    ("logging", .record [("level", .text s.logging.level), ("format", .text s.logging.format),
      ("file_path", s.logging.filePath.elim .null fun p => .text p.toText)])]

end Settings

end HotReload
