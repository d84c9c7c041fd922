import HotReload.Host.Claiming
import HotReload.Value.Sum

/-!
# Running bodies

The actions of a script, one after the other, with its variables. What a script asks of
the host goes through `host`, which answers for the whole host.
-/
namespace HotReload.World

/-- The names under which a script finds the host's objects. -/
def hostNames : List String :=
  ["directory", "loader", "resources", "depend", "logger", "exports"]

/-- The name under which the engine runs a script. -/
def runName (name : String) : String :=
  "scriptwatch." ++ String.ofList (name.toList.map fun c => if c = '.' then '_' else c)

/-- The variables that a script starts with. -/
def initialNamespace (s : Script) (file : String) : Namespace :=
  LogEntry.withFields (s.bindings.filter fun (k, _) => !hostNames.contains k)
    [("name", .text s.name), ("path", .text s.path.toText), ("__name__", .text (runName s.name)),
      ("__file__", .text file), ("__package__", .text "scriptwatch"), ("__doc__", .null),
      ("__cached__", .null), ("__loader__", .null), ("__spec__", .null)]

/-- Refuses to use a host object that a variable of the script hides. -/
def hostObject (ns : Namespace) (name method : String) : Act Unit :=
  match Value.field? name ns with
  | none => pure ()
  | some v =>
    throw <| if name = "depend" then
        .raised "TypeError" ("'" ++ v.typeName ++ "' object is not callable")
      else
        .raised "AttributeError"
          ("'" ++ v.typeName ++ "' object has no attribute '" ++ method ++ "'")

def readVariable (name : String) (ns : Namespace) : Act Value := do
  match Value.field? name ns with
  | some v => return v
  | none =>
    if name = "directory" then return .text (← get).rootText
    throw (.raised "NameError" ("name '" ++ name ++ "' is not defined"))

/-- The parts of an expression between plus signs. -/
def operands (expression : String) : List String := expression.splitOn " + "

def evaluate (expression : String) (ns : Namespace) : Act Value := do
  match operands expression with
  | [] => return .null
  | first :: rest =>
    rest.foldlM (fun v name => do liftExcept (v.plus (← readVariable name ns)))
      (← readVariable first ns)

/-- The export registry that an instance shares. -/
def exportsOf (s : Script) : Act ExportRegistry := do
  return ((← get).exports[s.exports]?).getD {}

def setExports (s : Script) (exports : ExportRegistry) : Act Unit :=
  modify fun w => { w with exports := w.exports.set s.exports exports }

def fetchExport (s : Script) (key : String) (default : Value) : Act Value := do
  let (result, run) := ExportRun.get { registry := ← exportsOf s } key (.given default)
  setExports s run.registry
  liftExcept result

def putExport (s : Script) (key : String) (v : Value) : Act Unit := do
  setExports s ((← exportsOf s).set key v).2

/-- Declares that an instance depends on another file. -/
def depend (n : Nat) (path : Path) : Act Unit := do
  let s ← script n
  let w ← get
  let path ← liftExcept (w.normalize path)
  if path ≠ s.path then
    let modified ← liftExcept (w.modified? path)
    updateScript n (·.addDependency path modified)

/-- Reports the closings that a change of an instance's resources brought. -/
def setResources (n : Nat) (before after : ResourceRegistry) : Act Unit := do
  updateScript n ({ · with resources := after })
  (after.closings.drop before.closings.length).forM fun label => record (.closed label)

/-- Defers the closing of a resource to the end of an instance. -/
def deferResource (n : Nat) (resource : Resource) : Act Unit := do
  let s ← script n
  let (failure, resources) := s.resources.defer resource
  setResources n s.resources resources
  match failure with
  | some e => throw e
  | none => pure ()

def closeResources (n : Nat) : Act Unit := do
  let s ← script n
  let (failure, resources) := s.resources.close
  setResources n s.resources resources
  match failure with
  | some e => throw e
  | none => pure ()

/-- Writes a file for a script. -/
def writeFile (path : String) (content : FileContent) (time : Float) : Act Unit := do
  let w ← get
  let files ← liftExcept (w.files.write (w.base.join (Path.parse path)) content time)
  set { w with files }

def removeFile (path : String) : Act Unit := do
  let w ← get
  let files ← liftExcept (w.files.remove (w.base.join (Path.parse path)))
  set { w with files }

/-- When files that scripts write are said to be modified. -/
def writtenAt : Float := 1000.0

/-- Runs one action of an instance and answers its variables. -/
def runAction (host : HostRequest → Act HostAnswer) (n : Nat) : Action → Namespace → Act Namespace
  | .depend path, ns => do
    hostObject ns "depend" ""
    depend n (Path.parse path)
    return ns
  | .watch paths, ns => do
    hostObject ns "loader" "watch"
    scriptWatch n (paths.map Path.parse)
    return ns
  | .unwatch paths, ns => do
    hostObject ns "loader" "unwatch"
    scriptUnwatch n (paths.map Path.parse)
    return ns
  | .set name v, ns => return Value.setField name v ns
  | .defer label failure, ns => do
    hostObject ns "resources" "defer"
    deferResource n (.mk label failure [])
    return ns
  | .close, ns => do
    hostObject ns "resources" "close"
    closeResources n
    return ns
  | .trace label, ns => do
    record (.reported (← readVariable "name" ns) (← readVariable "path" ns) label)
    return ns
  | .evaluate expression, ns => do
    record (.evaluated expression (← evaluate expression ns))
    return ns
  | .directory, ns => do
    let own ← readVariable "directory" ns
    hostObject ns "loader" "directory"
    record (.directories own.display (← get).rootText)
    return ns
  | .paths, ns => do
    hostObject ns "loader" "paths"
    record (.claims (← script n).claims.paths)
    return ns
  | .thread, ns => do
    record (.thread (← get).thread)
    return ns
  | .fetch key default, ns => do
    hostObject ns "exports" "get"
    record (.fetched key (← fetchExport (← script n) key default))
    return ns
  | .put key v, ns => do
    hostObject ns "exports" "set"
    putExport (← script n) key v
    return ns
  | .drop key, ns => do
    hostObject ns "exports" "remove"
    let s ← script n
    setExports s ((← exportsOf s).remove key)
    return ns
  | .count key, ns => do
    hostObject ns "exports" "set"
    let s ← script n
    let v ← fetchExport s key (.int 0)
    putExport s key (← liftExcept (v.plus (.int 1)))
    return ns
  | .raise failure, _ => throw failure
  | .log method event fields, ns => do
    hostObject ns "logger" method
    let s ← script n
    enter (.ofScript s.name s.path ((LogLevel.ofMethod? method).getD .info) event fields)
    return ns
  | .once key action, ns => do
    let w ← get
    if w.met.contains key then return ns
    set { w with met := w.met ++ [key] }
    runAction host n action ns
  | .host request, ns => do
    let answer ← host request
    record (.host request answer)
    return ns
  | .write path body, ns => do
    writeFile path (.script body) writtenAt
    return ns
  | .remove path, ns => do
    removeFile path
    return ns
  | .malformed, ns => return ns

/-- Runs actions until one of them fails. -/
def runActions (host : HostRequest → Act HostAnswer) (n : Nat) :
    List Action → Namespace → Act Namespace
  | [], ns => return ns
  | action :: rest, ns => do runActions host n rest (← runAction host n action ns)

end HotReload.World
