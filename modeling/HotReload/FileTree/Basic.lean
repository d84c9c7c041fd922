import HotReload.Failure
import HotReload.Path.Canonical

/-!
# File trees

Files, directories and links by their location, which is the list of names from the
top. Looking up a path follows links and tells why a path leads nowhere.
-/
namespace HotReload

/-- The names from the top directory to a place. -/
abbrev Location := List String

inductive FileNode (α : Type) where
  | file (content : α) (modified : Float)
  | directory
  | link (target : Path)

structure FileTree (α : Type) where
  /-- The current directory. -/
  here : Path
  nodes : List (Location × FileNode α) := []

namespace FileTree

variable {α : Type}

/-- What stands at a location itself; the top is always a directory. -/
def node? (t : FileTree α) (loc : Location) : Option (FileNode α) :=
  if loc = [] then some .directory else (t.nodes.find? (·.1 = loc)).map (·.2)

/-- Bytes that a name may have. -/
def nameLimit : Nat := 255

/-- Steps that looking up a path may take, links included. -/
def stepLimit (parts : List String) : Nat := 1000 + parts.length

/-- Follows names from a location to an existing place. -/
def walk (t : FileTree α) : Nat → Location → List String → Except FileFault Location
  | _, loc, [] => .ok loc
  | 0, _, _ :: _ => .error .tooManyLinks
  | fuel + 1, loc, part :: rest =>
    match t.node? loc with
    | some .directory =>
      if part = ".." then t.walk fuel loc.dropLast rest
      else if part.utf8ByteSize > nameLimit then .error .nameTooLong
      else
        match t.node? (loc ++ [part]) with
        | some (.link target) =>
          t.walk fuel (if target.isAbsolute then [] else loc) (target.parts ++ rest)
        | some _ => t.walk fuel (loc ++ [part]) rest
        | none => .error .notFound
    | some _ => .error .notDirectory
    | none => .error .notFound

/-- The existing place a path leads to. -/
def find (t : FileTree α) (path : Path) : Except FileFault Location :=
  if path.hasNull then .error .nullCharacter
  else
    let parts := (t.here.join path).parts
    t.walk (stepLimit parts) [] parts

/-- Follows names as far as links go, and takes the rest of them as they stand: what need not be
there, and what comes after a link that leads back to itself. `opened` has the links that are being
followed, each with the number of names after it. -/
def follow (t : FileTree α) : Nat → List (Location × Nat) → Location → List String → Location
  | _, _, loc, [] => loc
  | 0, _, loc, parts => loc ++ parts
  | fuel + 1, opened, loc, part :: rest =>
    if part = ".." then t.follow fuel opened loc.dropLast rest
    else
      match t.node? (loc ++ [part]) with
      | some (.link target) =>
        let opened := opened.filter (·.2 ≤ rest.length)
        if opened.any (·.1 = loc ++ [part]) then loc ++ part :: rest
        else
          t.follow fuel ((loc ++ [part], rest.length) :: opened)
            (if target.isAbsolute then [] else loc) (target.parts ++ rest)
      | _ => t.follow fuel opened (loc ++ [part]) rest

/-- Where following the links of a path ends, whether anything is there or not. -/
def followed (t : FileTree α) (path : Path) : Path :=
  let parts := (t.here.join path).parts
  ⟨.root, Path.foldParts true (t.follow (stepLimit parts) [] [] parts)⟩

/-- What resolving a path raises if its links lead round in a circle. -/
def circle? (t : FileTree α) (path : Path) : Option Failure :=
  if path.hasNull then none
  else
    match t.find (t.followed path) with
    | .error .tooManyLinks =>
      some (.raised "RuntimeError" ("Symlink loop from " ++ Text.quote (t.followed path).toText))
    | _ => none

/-- The location of a path with its links followed, if they do not lead round in a circle. -/
def resolve? (t : FileTree α) (path : Path) : Option Path :=
  if path.hasNull || (t.circle? path).isSome then none else some (t.followed path)

/-- What finding the canonical form of a path under a root raises: where links have to be followed,
those of the path or of the root may lead round in a circle. -/
def circleUnder? (t : FileTree α) (root path : Path) : Option Failure :=
  if path.isAbsolute && (path.relativeTo? root).isNone && !path.hasNull then
    (t.circle? path).or (t.circle? root)
  else none

/-- What a path leads to. -/
def lookup (t : FileTree α) (path : Path) : Except FileFault (FileNode α) :=
  match t.find path with
  | .ok loc => (t.node? loc).elim (.error .notFound) .ok
  | .error fault => .error fault

/-- Faults that only mean that nothing is there. -/
def isAbsence : FileFault → Bool
  | .notFound | .notDirectory | .tooManyLinks | .nullCharacter => true
  | _ => false

/-- Whether a path leads to a file. A path that cannot be asked about is a failure. -/
def isFile (t : FileTree α) (path : Path) : Except Failure Bool :=
  match t.lookup path with
  | .ok (.file _ _) => .ok true
  | .ok _ => .ok false
  | .error fault => if isAbsence fault then .ok false else .error (.file fault path.toText)

def isDirectory (t : FileTree α) (path : Path) : Except Failure Bool :=
  match t.lookup path with
  | .ok .directory => .ok true
  | .ok _ => .ok false
  | .error fault => if isAbsence fault then .ok false else .error (.file fault path.toText)

/-- When the file at a path was last modified; a directory never is. -/
def modified? (t : FileTree α) (path : Path) : Except Failure (Option Float) :=
  match t.lookup path with
  | .ok (.file _ time) => .ok (some time)
  | .ok _ => .ok (some 0.0)
  | .error .nullCharacter => .error (.file .nullCharacter path.toText)
  | .error _ => .ok none

/-! Changing the tree. -/

/-- Puts a node at a location, replacing what stood there. -/
def put (loc : Location) (n : FileNode α) :
    List (Location × FileNode α) → List (Location × FileNode α)
  | [] => [(loc, n)]
  | (l, old) :: rest => if l = loc then (loc, n) :: rest else (l, old) :: put loc n rest

def putNode (t : FileTree α) (loc : Location) (n : FileNode α) : FileTree α :=
  { t with nodes := put loc n t.nodes }

/-- The location itself and everything below it. -/
def isUnder (loc : Location) (l : Location) : Bool := loc.isPrefixOf l

def dropUnder (t : FileTree α) (loc : Location) : FileTree α :=
  { t with nodes := t.nodes.filter fun (l, _) => !isUnder loc l }

/-- Where a path's last name stands or would stand; the directory above must exist. -/
def place (t : FileTree α) (path : Path) : Except FileFault Location := do
  if path.hasNull then throw .nullCharacter
  match (t.here.join path).parts.getLast? with
  | none => return []
  | some ".." => t.find path
  | some name =>
    let above ← t.find (t.here.join path).parent
    match t.node? above with
    | some .directory =>
      if name.utf8ByteSize > nameLimit then .error .nameTooLong else return above ++ [name]
    | _ => .error .notDirectory

/-- Makes a directory with the directories above it; one that exists is left alone. -/
def makeDirectories (t : FileTree α) : Nat → Path → Except Failure (FileTree α)
  | 0, path => .error (.file .notFound path.toText)
  | fuel + 1, path =>
    match t.place path with
    | .ok loc =>
      match t.lookup path, t.node? loc with
      | .ok .directory, _ => .ok t
      | _, some _ => .error (.file .exists path.toText)
      | _, none => .ok (t.putNode loc .directory)
    | .error .notFound =>
      match t.makeDirectories fuel path.parent with
      | .ok t =>
        match t.place path with
        | .ok loc => .ok (t.putNode loc .directory)
        | .error fault => .error (.file fault path.toText)
      | .error e => .error e
    | .error fault => .error (.file fault path.toText)

def makeDirectory (t : FileTree α) (path : Path) : Except Failure (FileTree α) :=
  t.makeDirectories (path.parts.length + 1) path

/-- Writes a file, making the directories above it. -/
def write (t : FileTree α) (path : Path) (content : α) (time : Float) :
    Except Failure (FileTree α) := do
  let t ← t.makeDirectory path.parent
  match t.lookup path with
  | .ok .directory => .error (.file .isDirectory path.toText)
  | .ok _ =>
    match t.find path with
    | .ok loc => return t.putNode loc (.file content time)
    | .error fault => .error (.file fault path.toText)
  | .error _ =>
    match t.place path with
    | .ok loc => return t.putNode loc (.file content time)
    | .error fault => .error (.file fault path.toText)

/-- Removes a file or a link; a missing one is fine. -/
def remove (t : FileTree α) (path : Path) : Except Failure (FileTree α) :=
  match t.place path with
  | .ok loc =>
    match t.node? loc with
    | some .directory => .error (.file .isDirectory path.toText)
    | some _ => .ok (t.dropUnder loc)
    | none => .ok t
  | .error .notFound => .ok t
  | .error fault => .error (.file fault path.toText)

/-- Removes a directory with all that it holds. -/
def removeAll (t : FileTree α) (path : Path) : FileTree α :=
  match t.place path with
  | .ok loc => t.dropUnder loc
  | .error _ => t

/-- Sets when a file was last modified. -/
def touch (t : FileTree α) (path : Path) (time : Float) : Except Failure (FileTree α) :=
  match t.find path with
  | .ok loc =>
    match t.node? loc with
    | some (.file content _) => .ok (t.putNode loc (.file content time))
    | _ => .ok t
  | .error fault => .error (.file fault path.toText)

/-- Moves what stands at a path to another path. -/
def rename (t : FileTree α) (path target : Path) : Except Failure (FileTree α) :=
  match t.place path, t.place target with
  | .ok source, .ok destination =>
    if (t.node? source).isNone then .error (.file .notFound path.toText)
    else
      let moved := t.nodes.filterMap fun (l, n) =>
        if isUnder source l then some (destination ++ l.drop source.length, n) else none
      let rest := (t.dropUnder source).dropUnder destination
      .ok { rest with nodes := rest.nodes ++ moved }
  | .error fault, _ => .error (.file fault path.toText)
  | _, .error fault => .error (.file fault path.toText)

/-- Makes a link that leads to a directory. -/
def makeLink (t : FileTree α) (path target : Path) : Except Failure (FileTree α) :=
  match t.place path with
  | .ok loc =>
    match t.node? loc with
    | some _ => .error (.file .exists path.toText)
    | none => .ok (t.putNode loc (.link target))
  | .error fault => .error (.file fault path.toText)

end FileTree

end HotReload
