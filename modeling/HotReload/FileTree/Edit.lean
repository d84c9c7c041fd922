import HotReload.FileTree.Basic
import HotReload.Script.Reader

/-!
# Edits of script files

What can be done to a tree of script files from outside, and how it is written down.
-/
namespace HotReload

inductive FileEdit where
  /-- Writes a file with its time of modification, and the directories above it. -/
  | write (path : Path) (content : FileContent) (modified : Float)
  | remove (path : Path)
  | makeDirectory (path : Path)
  /-- Removes a path with everything below it. -/
  | removeAll (path : Path)
  | touch (path : Path) (modified : Float)
  | rename (path target : Path)
  | link (path target : Path)

namespace FileEdit

def apply (files : FileTree FileContent) : FileEdit → Except Failure (FileTree FileContent)
  | write path content modified => files.write path content modified
  | remove path => files.remove path
  | makeDirectory path => files.makeDirectory path
  | removeAll path => .ok (files.removeAll path)
  | touch path modified => files.touch path modified
  | rename path target => files.rename path target
  | link path target => files.makeLink path target

/-- The time of modification of files that are written without one. -/
def defaultTime : Float := 1000.0

/-- A file's content: a body of actions, else a plain text. -/
def contentOf (v : Value) : FileContent :=
  match v.get? "body" with
  | some (.list body) => .script (Action.bodyOf (.list body))
  | _ => .text (v.textAt "text")

/-- An edit by its word and a record of what it takes; paths start at `base`. -/
def read? (base : Path) (word : String) (v : Value) : Option FileEdit :=
  let path := base.join (Path.parse (v.textAt "path"))
  let target := base.join (Path.parse (v.textAt "to"))
  match word with
  | "write" => some (write path (contentOf v) (v.floatAt "mtime" defaultTime))
  | "remove" => some (remove path)
  | "mkdir" => some (makeDirectory path)
  | "rmtree" => some (removeAll path)
  | "touch" => some (touch path (v.floatAt "mtime" 0.0))
  | "rename" => some (rename path target)
  | "symlink" => some (link path target)
  | _ => none

/-- Writes the described files; one that cannot be written is left out. -/
def writeAll (base : Path) (files : FileTree FileContent) (described : List Value) :
    FileTree FileContent :=
  described.foldl (fun files v =>
    match (read? base "write" v).map (apply files) with
    | some (.ok files) => files
    | _ => files) files

end FileEdit

end HotReload
