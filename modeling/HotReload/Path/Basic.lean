import HotReload.Text.Ranges

/-!
# Paths

A path is a list of names behind no, one or two leading slashes. Empty names and
single dots are dropped when a text is read; two dots stay.
-/
namespace HotReload

/-- What a path starts from. -/
inductive Anchor where
  | relative
  | root
  /-- Exactly two leading slashes, which are kept apart from one. -/
  | doubleRoot
  deriving Repr, DecidableEq, Hashable

structure Path where
  anchor : Anchor
  parts : List String
  deriving Repr, DecidableEq, Hashable

namespace Path

/-- The texts between slashes. -/
def splitSlashes : List Char → List (List Char)
  | [] => [[]]
  | c :: cs =>
    if c = '/' then [] :: splitSlashes cs
    else
      match splitSlashes cs with
      | [] => [[c]]
      | part :: more => (c :: part) :: more

def anchorOf (cs : List Char) : Anchor :=
  match (cs.takeWhile (· = '/')).length with
  | 0 => .relative
  | 2 => .doubleRoot
  | _ => .root

/-- Whether a text between slashes counts as a name. -/
def isName (cs : List Char) : Bool := cs ≠ [] && cs ≠ ['.']

def parse (s : String) : Path where
  anchor := anchorOf s.toList
  parts := ((splitSlashes s.toList).filter isName).map String.ofList

def anchorText : Anchor → String
  | .relative => ""
  | .root => "/"
  | .doubleRoot => "//"

def toText (p : Path) : String :=
  match p.anchor, p.parts with
  | .relative, [] => "."
  | a, parts => anchorText a ++ String.intercalate "/" parts

instance : ToString Path := ⟨toText⟩

def isAbsolute (p : Path) : Bool := p.anchor ≠ .relative

/-- Whether a null character stands in a path; no file can be asked for by such a path. -/
def hasNull (p : Path) : Bool := p.parts.any (·.contains '\x00')

/-- The last name, or nothing for a bare anchor. -/
def name (p : Path) : String := p.parts.getLast?.getD ""

/-- A name without its last suffix; a dot at either end starts no suffix. -/
def stemOf (name : List Char) : List Char :=
  let tail := (name.reverse.takeWhile (· ≠ '.')).length
  if tail = name.length then name
  else
    let dot := name.length - tail - 1
    if 0 < dot ∧ dot < name.length - 1 then name.take dot else name

def stem (p : Path) : String := String.ofList (stemOf p.name.toList)

/-- The path `p` below `base`; an absolute path stands for itself. -/
def join (base p : Path) : Path :=
  if p.isAbsolute then p else ⟨base.anchor, base.parts ++ p.parts⟩

/-- The path that leads from `base` to `p` when the names of `base` begin those of `p`. -/
def relativeTo? (p base : Path) : Option Path :=
  if p.anchor = base.anchor ∧ base.parts <+: p.parts then
    some ⟨.relative, p.parts.drop base.parts.length⟩
  else none

/-- The path without its last name. -/
def parent (p : Path) : Path := ⟨p.anchor, p.parts.dropLast⟩

end Path

end HotReload
