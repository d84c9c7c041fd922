import HotReload.Path.Basic

/-!
# Canonical paths below a root

A script is known by one path: relative to the script root when it lies below the
root, absolute otherwise. `fold` takes back a name for each pair of dots behind it;
`canonical` brings every spelling of a path to its canonical form.
-/
namespace HotReload.Path

/-- One step of folding; `done` is the folded path so far, backwards. -/
def foldStep (absolute : Bool) (done : List String) (part : String) : List String :=
  if part ≠ ".." then part :: done
  else
    match done with
    | [] => if absolute then [] else [".."]
    | last :: rest => if last = ".." then ".." :: done else rest

def foldParts (absolute : Bool) (parts : List String) : List String :=
  (parts.foldl (foldStep absolute) []).reverse

/-- The path with every pair of dots taken back as far as that is possible without
looking at files: none is left in an absolute path, and only leading ones in a relative. -/
def fold (p : Path) : Path := ⟨p.anchor, foldParts p.isAbsolute p.parts⟩

/-- The location a path denotes from the directory `here` when there are no links. A path
with a null character denotes none. -/
def locate? (here p : Path) : Option Path :=
  if p.hasNull then none else some ⟨.root, foldParts true (here.join p).parts⟩

/-- The canonical form of `p` under `root`, where `resolve` finds the location of a path. -/
def canonical (resolve : Path → Option Path) (root p : Path) : Path :=
  if p.isAbsolute then
    match p.relativeTo? root with
    | some below => below.fold
    | none =>
      match (resolve p).bind fun place => (resolve root).bind place.relativeTo? with
      | some below => below.fold
      | none => p.fold
  else p.fold

end HotReload.Path
