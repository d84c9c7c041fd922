import HotReload.Value.Basic

/-!
# Reading values from JSON

The grammar is JSON with `NaN`, `Infinity` and `-Infinity` as further numbers. A
text that is refused is refused at one character, with one reason. Of two fields
with one name the later value stands in the earlier place.
-/
namespace HotReload.Value

/-- Why and where a text is no JSON. -/
inductive ReadReason where
  | value
  | fieldName
  | colon
  | comma
  | unterminatedText
  | controlCharacter
  | escapeSequence
  | unicodeEscape
  | extraData
  | byteOrderMark
  deriving Repr, DecidableEq

structure ReadFault where
  reason : ReadReason
  offset : Nat
  deriving Repr, DecidableEq

/-- A place in a text: what is left of it, and how many characters came before. -/
structure Cursor where
  rest : List Char
  offset : Nat

namespace Cursor

def advance (c : Cursor) (n : Nat) : Cursor := ⟨c.rest.drop n, c.offset + n⟩

def isBlank (c : Char) : Bool := c = ' ' || c = '\t' || c = '\n' || c = '\r'

def skipBlanks (c : Cursor) : Cursor :=
  ⟨c.rest.dropWhile isBlank, c.offset + (c.rest.takeWhile isBlank).length⟩

/-- The place behind `word`, if the text goes on with it. -/
def after? (c : Cursor) (word : String) : Option Cursor :=
  let w := word.toList
  if w.isPrefixOf c.rest then some (c.advance w.length) else none

end Cursor

def isDigit (c : Char) : Bool := '0' ≤ c && c ≤ '9'

def digitsValue (cs : List Char) : Nat :=
  cs.foldl (fun n c => 10 * n + (c.toNat - '0'.toNat)) 0

/-- The double nearest to `m · 10 ^ e`. -/
def nearestFloat (m : Nat) (e : Int) : Float :=
  if m = 0 then 0.0
  else
    let size : Int := (Nat.toDigits 10 m).length + e
    if 310 < size then 1.0 / 0.0
    else if size < -330 then 0.0
    else Float.ofScientific m (e < 0) e.natAbs

/-- The digits behind a point, if there is a point with a digit behind it. -/
def fraction (cs : List Char) : List Char × List Char :=
  match cs with
  | '.' :: rest =>
    let ds := rest.takeWhile isDigit
    if ds.isEmpty then ([], cs) else (ds, rest.drop ds.length)
  | _ => ([], cs)

/-- An exponent, if a mark is followed by at least one digit. -/
def exponent (cs : List Char) : Option Int × List Char :=
  match cs with
  | mark :: rest =>
    if mark = 'e' ∨ mark = 'E' then
      let (negative, body) := match rest with
        | '-' :: tail => (true, tail)
        | '+' :: tail => (false, tail)
        | tail => (false, tail)
      let ds := body.takeWhile isDigit
      if ds.isEmpty then (none, cs)
      else
        let n : Int := digitsValue ds
        (some (if negative then -n else n), body.drop ds.length)
    else (none, cs)
  | [] => (none, cs)

def readNumber (c : Cursor) : Except ReadFault (Value × Cursor) :=
  let (negative, body) := match c.rest with
    | '-' :: tail => (true, tail)
    | tail => (false, tail)
  let whole := match body with
    | '0' :: _ => ['0']
    | _ => body.takeWhile isDigit
  if whole.isEmpty then .error ⟨.value, c.offset⟩
  else
    let (decimals, afterDecimals) := fraction (body.drop whole.length)
    let (power, left) := exponent afterDecimals
    let place : Cursor := ⟨left, c.offset + (c.rest.length - left.length)⟩
    if decimals.isEmpty && power.isNone then
      let n : Int := digitsValue whole
      .ok (.int (if negative then -n else n), place)
    else
      let x := nearestFloat (digitsValue (whole ++ decimals)) (power.getD 0 - decimals.length)
      .ok (.float (if negative then -x else x), place)

def hexValue (c : Char) : Option Nat :=
  if isDigit c then some (c.toNat - '0'.toNat)
  else if 'a' ≤ c && c ≤ 'f' then some (c.toNat - 'a'.toNat + 10)
  else if 'A' ≤ c && c ≤ 'F' then some (c.toNat - 'A'.toNat + 10)
  else none

/-- The number written by exactly four hexadecimal digits at the head. -/
def fourHex (cs : List Char) : Option Nat :=
  let digits := cs.take 4
  if digits.length < 4 then none
  else digits.foldl (fun n c => do return 16 * (← n) + (← hexValue c)) (some 0)

/-- The unit that follows as a second escape and completes `high` to one character. -/
def lowUnit (cs : List Char) : Option Nat :=
  match cs with
  | '\\' :: 'u' :: rest => do
    let n ← fourHex rest
    if 0xdc00 ≤ n ∧ n ≤ 0xdfff then some n else none
  | _ => none

def plainEscape : Char → Option Char
  | '"' => some '"'
  | '\\' => some '\\'
  | '/' => some '/'
  | 'b' => some '\x08'
  | 'f' => some '\x0c'
  | 'n' => some '\n'
  | 'r' => some '\r'
  | 't' => some '\t'
  | _ => none

/-- The rest of a string whose opening quote is at `start`; `seen` is what was read, backwards. -/
def readText (start : Nat) : Nat → Cursor → List Char → Except ReadFault (String × Cursor)
  | 0, _, _ => .error ⟨.unterminatedText, start⟩
  | fuel + 1, c, seen =>
    match c.rest with
    | [] => .error ⟨.unterminatedText, start⟩
    | '"' :: _ => .ok (String.ofList seen.reverse, c.advance 1)
    | '\\' :: [] => .error ⟨.unterminatedText, start⟩
    | '\\' :: 'u' :: rest =>
      if rest.length < 5 then .error ⟨.unicodeEscape, c.offset + 1⟩
      else
        match fourHex rest with
        | none => .error ⟨.unicodeEscape, c.offset + 1⟩
        | some n =>
          match if 0xd800 ≤ n ∧ n ≤ 0xdbff then lowUnit (rest.drop 4) else none with
          | some low =>
            readText start fuel (c.advance 12)
              (Char.ofNat (0x10000 + (n - 0xd800) * 0x400 + (low - 0xdc00)) :: seen)
          | none =>
            let ch := if 0xd800 ≤ n ∧ n ≤ 0xdfff then '\ufffd' else Char.ofNat n
            readText start fuel (c.advance 6) (ch :: seen)
    | '\\' :: e :: _ =>
      match plainEscape e with
      | some ch => readText start fuel (c.advance 2) (ch :: seen)
      | none => .error ⟨.escapeSequence, c.offset⟩
    | ch :: _ =>
      if ch.toNat < 0x20 then .error ⟨.controlCharacter, c.offset⟩
      else readText start fuel (c.advance 1) (ch :: seen)

def readString (c : Cursor) : Except ReadFault (String × Cursor) :=
  readText c.offset (c.rest.length + 1) (c.advance 1) []

mutual

/-- A value at the cursor. The first argument bounds the depth and the number of parts. -/
def readValue : Nat → Cursor → Except ReadFault (Value × Cursor)
  | 0, c => .error ⟨.value, c.offset⟩
  | fuel + 1, c =>
    match c.rest with
    | '"' :: _ => (readString c).map fun (s, c) => (.text s, c)
    | '[' :: _ =>
      let inner := (c.advance 1).skipBlanks
      match inner.rest with
      | ']' :: _ => .ok (.list [], inner.advance 1)
      | _ => (readItems fuel inner).map fun (vs, c) => (.list vs, c)
    | '\x7b' :: _ =>
      let inner := (c.advance 1).skipBlanks
      match inner.rest with
      | '\x7d' :: _ => .ok (.record [], inner.advance 1)
      | _ => (readFields fuel inner []).map fun (fs, c) => (.record fs, c)
    | _ =>
      match c.after? "null", c.after? "true", c.after? "false" with
      | some c, _, _ => .ok (.null, c)
      | _, some c, _ => .ok (.bool true, c)
      | _, _, some c => .ok (.bool false, c)
      | _, _, _ =>
        match c.after? "NaN", c.after? "Infinity", c.after? "-Infinity" with
        | some c, _, _ => .ok (.float (0.0 / 0.0), c)
        | _, some c, _ => .ok (.float (1.0 / 0.0), c)
        | _, _, some c => .ok (.float (-1.0 / 0.0), c)
        | _, _, _ => readNumber c

/-- The items of a list up to its closing bracket. -/
def readItems : Nat → Cursor → Except ReadFault (List Value × Cursor)
  | 0, c => .error ⟨.value, c.offset⟩
  | fuel + 1, c => do
    let (v, c) ← readValue fuel c
    let c := c.skipBlanks
    match c.rest with
    | ']' :: _ => return ([v], c.advance 1)
    | ',' :: _ =>
      let (vs, c) ← readItems fuel (c.advance 1).skipBlanks
      return (v :: vs, c)
    | _ => throw ⟨.comma, c.offset⟩

/-- The fields of a record up to its closing brace, added to those read before. -/
def readFields : Nat → Cursor → List (String × Value) →
    Except ReadFault (List (String × Value) × Cursor)
  | 0, c, _ => .error ⟨.value, c.offset⟩
  | fuel + 1, c, fields =>
    match c.rest with
    | '"' :: _ => do
      let (key, c) ← readString c
      let c := c.skipBlanks
      match c.rest with
      | ':' :: _ =>
        let (v, c) ← readValue fuel (c.advance 1).skipBlanks
        let c := c.skipBlanks
        let fields := setField key v fields
        match c.rest with
        | '\x7d' :: _ => return (fields, c.advance 1)
        | ',' :: _ => readFields fuel (c.advance 1).skipBlanks fields
        | _ => throw ⟨.comma, c.offset⟩
      | _ => throw ⟨.colon, c.offset⟩
    | _ => .error ⟨.fieldName, c.offset⟩

end

/-- Reads a text that holds one value and nothing else. -/
def ofJson (s : String) : Except ReadFault Value := do
  let cs := s.toList
  if cs.head? = some '\ufeff' then throw ⟨.byteOrderMark, 0⟩
  let start := (Cursor.mk cs 0).skipBlanks
  let (v, c) ← readValue (2 * cs.length + 2) start
  let c := c.skipBlanks
  if c.rest.isEmpty then return v else throw ⟨.extraData, c.offset⟩

end HotReload.Value
