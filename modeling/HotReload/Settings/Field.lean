import HotReload.Settings.Fault
import HotReload.Text.Blank
import HotReload.Text.LowerCase

/-!
# Reading fields

Fields are read leniently: a text may spell a number or a truth value, and a whole
number may come with a fraction of zero.
-/
namespace HotReload.Field

/-! Integers. -/

def isDigit (c : Char) : Bool := '0' ≤ c && c ≤ '9'

def digitsValue (cs : List Char) : Nat :=
  cs.foldl (fun n c => 10 * n + (c.toNat - '0'.toNat)) 0

/-- Digits, with single underscores between them. -/
def unsigned? (cs : List Char) : Option Nat :=
  let parts := cs.splitOn '_'
  if parts.all (fun p => p ≠ [] && p.all isDigit) then some (digitsValue parts.flatten) else none

def signed? : List Char → Option Int
  | '-' :: cs => (unsigned? cs).map fun n => -(n : Int)
  | '+' :: cs => (unsigned? cs).map Int.ofNat
  | cs => (unsigned? cs).map Int.ofNat

/-- The text without a point and the zeros behind it. -/
def dropZeroFraction (cs : List Char) : List Char :=
  let whole := cs.takeWhile (· ≠ '.')
  if (cs.drop (whole.length + 1)).all (· = '0') then whole else cs

/-- The integer that a text spells, with white space around it. -/
def intOfText? (s : String) : Option Int :=
  signed? (dropZeroFraction (Text.stripClass Text.isWhiteSpace s.toList))

/-- Digits that the text of an integer may have. -/
def digitLimit : Nat := 4300

def tooLarge : String × String :=
  ("int_parsing_size", "Unable to parse input string as an integer, exceeded maximum size")

/-- The bounds between which a float counts as an integer. -/
def floatBound : Float := 9223372036854775808.0

/-- The integer that a finite float without a fraction is. -/
def intOfFloat (x : Float) : Except (String × String) Int :=
  if x.isNaN || x.isInf then .error ("finite_number", "Input should be a finite number")
  else if x.floor != x then
    .error
      ("int_from_float", "Input should be a valid integer, got a number with a fractional part")
  else if -floatBound < x && x < floatBound then
    .ok (wholePart x)
  else .error tooLarge

def intOf : Value → Except (String × String) Int
  | .int n => .ok n
  | .bool b => .ok (if b then 1 else 0)
  | .float x => intOfFloat x
  | .text s =>
    match intOfText? s with
    | some n => if s.length ≤ digitLimit then .ok n else .error tooLarge
    | none =>
      .error ("int_parsing",
        "Input should be a valid integer, unable to parse string as an integer")
  | _ => .error ("int_type", "Input should be a valid integer")

/-- An integer within bounds. -/
def int (name : String) (low : Option Int) (high : Option Int) (v : Value) : Checked Int :=
  match intOf v with
  | .error (kind, message) => .fault 0 name kind message
  | .ok n =>
    match low.filter (n < ·), high.filter (· < n) with
    | some low, _ =>
      .fault 0 name "greater_than_equal"
        ("Input should be greater than or equal to " ++ toString low)
    | none, some high =>
      .fault 0 name "less_than_equal" ("Input should be less than or equal to " ++ toString high)
    | none, none => .ok n

/-! Truth values. -/

def trueWords : List String := ["1", "on", "t", "true", "y", "yes"]

def falseWords : List String := ["0", "off", "f", "false", "n", "no"]

/-- A character with its ASCII letter in lower case. -/
def lowerAscii (s : String) : String := s.map Char.toLower

def boolOfInt? : Int → Option Bool
  | 0 => some false
  | 1 => some true
  | _ => none

def boolUnparsed : String × String :=
  ("bool_parsing", "Input should be a valid boolean, unable to interpret input")

def boolMistyped : String × String := ("bool_type", "Input should be a valid boolean")

def boolOf : Value → Except (String × String) Bool
  | .bool b => .ok b
  | .text s =>
    let word := lowerAscii s
    if trueWords.contains word then .ok true
    else if falseWords.contains word then .ok false
    else .error boolUnparsed
  | .int n =>
    if -(Int.pow 2 63) ≤ n ∧ n < Int.pow 2 63 then (boolOfInt? n).elim (.error boolUnparsed) .ok
    else .error boolMistyped
  | .float x =>
    match intOfFloat x with
    | .ok n => (boolOfInt? n).elim (.error boolUnparsed) .ok
    | .error _ => .error boolMistyped
  | _ => .error boolMistyped

def bool (name : String) (v : Value) : Checked Bool :=
  match boolOf v with
  | .ok b => .ok b
  | .error (kind, message) => .fault false name kind message

/-! Texts, paths and lists. -/

def textMessage : String := "Input should be a valid string"

def text (name : String) : Value → Checked String
  | .text s => .ok s
  | _ => .fault "" name "string_type" textMessage

def path (name : String) : Value → Checked Path
  | .text s => .ok (Path.parse s)
  | _ =>
    .fault (Path.parse "") name "path_type" "Input is not a valid path for <class 'pathlib.Path'>"

/-- A path, or null for none. -/
def pathOrNone (name : String) : Value → Checked (Option Path)
  | .null => .ok none
  | v => (path name v).map some

/-- The texts of a list, with the places of the items that are none. -/
def textItems (name : String) : Nat → List Value → Checked (List String)
  | _, [] => .ok []
  | n, item :: rest =>
    let later := textItems name (n + 1) rest
    match item with
    | .text s => ⟨s :: later.value, later.faults⟩
    | _ => ⟨later.value, ⟨"string_type", [.name name, .index n], textMessage⟩ :: later.faults⟩

/-- The items of a comma-separated text: blanks around them do not count, and
neither do empty ones. -/
def splitCommas (s : String) : List String :=
  ((s.toList.splitOn ',').map Text.strip).filter (· ≠ []) |>.map String.ofList

/-- A list of texts, which may be given as one text with commas. -/
def texts (name : String) : Value → Checked (List String)
  | .list items => textItems name 0 items
  | .text s => .ok (splitCommas s)
  | _ => .fault [] name "list_type" "Input should be a valid list"

end HotReload.Field
