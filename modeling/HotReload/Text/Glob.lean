/-!
# Wildcard patterns

In a pattern a star stands for any text, a question mark for any character, and
brackets for one character of a set; all else stands for itself. A set lists
characters and ranges, is complemented by a leading exclamation mark, and holds a
closing bracket only at its start. A bracket that is never closed stands for itself.
-/
namespace HotReload

/-- What one character of a text may be. -/
inductive GlobItem where
  | char (c : Char)
  | any
  /-- A character in, or when `negated` not in, one of the closed intervals. -/
  | set (negated : Bool) (intervals : List (Char × Char))
  deriving Repr, DecidableEq

def GlobItem.accepts : GlobItem → Char → Bool
  | .char d, c => c = d
  | .any, _ => true
  | .set negated intervals, c => intervals.any (fun r => r.1 ≤ c && c ≤ r.2) != negated

/-- A pattern as the texts between its stars. -/
abbrev Glob := List (List GlobItem)

namespace Glob

/-- Cuts the text of a set at the hyphens that make ranges: after a first part of at least
`least` characters, and after parts of at least two. -/
def cutAtHyphens : Nat → Nat → List Char → List (List Char)
  | 0, _, cs => [cs]
  | fuel + 1, least, cs =>
    let part := cs.take least ++ (cs.drop least).takeWhile (· ≠ '-')
    if part.length < cs.length then
      part :: cutAtHyphens fuel 2 (cs.drop (part.length + 1))
    else [cs]

/-- A hyphen at the end stands for itself. -/
def keepLastHyphen : List (List Char) → List (List Char)
  | [] => []
  | [part] => [part]
  | [part, []] => [part ++ ['-']]
  | part :: more => part :: keepLastHyphen more

/-- Joins a part to the parts behind it, dropping both ends of a range that runs backwards. -/
def joinBackward (part : List Char) : List (List Char) → List (List Char)
  | [] => [part]
  | next :: more =>
    match part.getLast?, next with
    | some a, b :: tail => if b < a then (part.dropLast ++ tail) :: more else part :: next :: more
    | _, _ => part :: next :: more

/-- The intervals of parts: each joint is a range, every other character stands alone. -/
def intervals : List (List Char) → List (Char × Char)
  | [] => []
  | [part] => part.map fun c => (c, c)
  | part :: next :: more =>
    let joint := match part.getLast?, next with
      | some a, b :: _ => [(a, b)]
      | _, _ => []
    part.map (fun c => (c, c)) ++ joint ++ intervals (next :: more)

/-- The set written by the text between two brackets. -/
def setOf (stuff : List Char) : GlobItem :=
  let parts :=
    if stuff.contains '-' then
      (keepLastHyphen
        (cutAtHyphens stuff.length (if stuff.head? = some '!' then 2 else 1) stuff)).foldr
          joinBackward []
    else [stuff]
  match parts with
  | ('!' :: first) :: more => .set true (intervals (first :: more))
  | parts => .set false (intervals parts)

/-- The text of a set that starts here and what follows its closing bracket. -/
def bracketed? (cs : List Char) : Option (List Char × List Char) :=
  let lead := match cs with
    | '!' :: ']' :: _ => 2
    | '!' :: _ => 1
    | ']' :: _ => 1
    | _ => 0
  let body := (cs.drop lead).takeWhile (· ≠ ']')
  match cs.drop (lead + body.length) with
  | _ :: rest => some (cs.take lead ++ body, rest)
  | [] => none

/-- Puts an item before the first text of a pattern. -/
def consItem (item : GlobItem) : Glob → Glob
  | [] => [[item]]
  | items :: more => (item :: items) :: more

def ofChars : Nat → List Char → Glob
  | 0, _ => [[]]
  | _, [] => [[]]
  | fuel + 1, '*' :: rest => [] :: ofChars fuel rest
  | fuel + 1, '?' :: rest => consItem .any (ofChars fuel rest)
  | fuel + 1, '[' :: rest =>
    match bracketed? rest with
    | some (stuff, after) => consItem (setOf stuff) (ofChars fuel after)
    | none => consItem (.char '[') (ofChars fuel rest)
  | fuel + 1, c :: rest => consItem (.char c) (ofChars fuel rest)

def parse (pattern : String) : Glob := ofChars pattern.length pattern.toList

/-- What is left of a text that starts with the items. -/
def dropItems? : List GlobItem → List Char → Option (List Char)
  | [], cs => some cs
  | _ :: _, [] => none
  | item :: items, c :: cs => if item.accepts c then dropItems? items cs else none

/-- What is left behind the first place where the items match. -/
def dropThrough? (items : List GlobItem) : List Char → Option (List Char)
  | [] => dropItems? items []
  | c :: cs => (dropItems? items (c :: cs)).or (dropThrough? items cs)

/-- Whether a text ends with the items. -/
def endsWith (items : List GlobItem) (cs : List Char) : Bool :=
  items.length ≤ cs.length && (dropItems? items (cs.drop (cs.length - items.length))).isSome

/-- Whether a text matches what stands behind a star. -/
def matchesBehindStar : Glob → List Char → Bool
  | [], _ => true
  | [last], cs => endsWith last cs
  | items :: more, cs =>
    match dropThrough? items cs with
    | some rest => matchesBehindStar more rest
    | none => false

def matchesChars (g : Glob) (cs : List Char) : Bool :=
  match g with
  | [] => cs.isEmpty
  | [only] => dropItems? only cs = some []
  | first :: more =>
    match dropItems? first cs with
    | some rest => matchesBehindStar more rest
    | none => false

def accepts (g : Glob) (s : String) : Bool := g.matchesChars s.toList

end Glob

end HotReload
