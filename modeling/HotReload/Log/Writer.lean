import HotReload.FileTree.Basic
import HotReload.Log.Output

/-!
# Writing log entries

A writer prints lines or adds them to the log file. The file is there from the moment
the writer is opened, with what it held before.
-/
namespace HotReload

structure LogWriter where
  settings : Settings
  output : LogOutput
  /-- The lines that were printed. -/
  printed : List String := []
  /-- The log files, by their lines. -/
  files : FileTree (List String)

namespace LogWriter

/-- Makes the log file of the output, if it has one and it is not there. -/
def prepare (output : LogOutput) (files : FileTree (List String)) :
    Except Failure (FileTree (List String)) :=
  match output.file with
  | none => .ok files
  | some path => do
    let files ← files.makeDirectory path.parent
    match files.lookup path with
    | .ok (.file _ _) => return files
    | _ => files.write path [] 0.0

/-- A writer as the settings say. -/
def create (settings : Settings) (files : FileTree (List String)) : Except Failure LogWriter := do
  let output := LogOutput.ofSettings settings.logging
  return { settings, output, files := ← prepare output files }

/-- Takes new settings. The output stays as it is unless it is forced to follow them. -/
def reconfigure (w : LogWriter) (settings : Settings) (force : Bool) :
    Except Failure LogWriter := do
  if force then
    let output := LogOutput.ofSettings settings.logging
    return { w with settings, output, files := ← prepare output w.files }
  else return { w with settings }

/-- Adds a line to the log file, or prints it. -/
def addLine (w : LogWriter) (line : String) : LogWriter :=
  match w.output.file with
  | none => { w with printed := w.printed ++ [line] }
  | some path =>
    match w.files.lookup path with
    | .ok (.file lines _) =>
      match w.files.write path (lines ++ [line]) 0.0 with
      | .ok files => { w with files }
      | .error _ => w
    | _ => w

/-- Writes an entry, if its level is high enough. -/
def write (w : LogWriter) (context : LogContext) (e : LogEntry) : LogWriter :=
  if w.output.writes e then w.addLine (w.output.line w.settings context e) else w

end LogWriter

end HotReload
