import HotReload.Value.Basic

/-!
# Printing values as JSON

Values are printed on one line, a blank after each comma and colon, in ASCII only:
characters beyond it are escaped by their UTF-16 units.
-/
namespace HotReload.Value

def escapeUnit (n : Nat) : List Char := '\\' :: 'u' :: Text.hexadecimal 4 n

/-- A character as it stands in a JSON string. -/
def jsonChar (c : Char) : List Char :=
  if c = '"' ∨ c = '\\' then ['\\', c]
  else if c = '\n' then ['\\', 'n']
  else if c = '\r' then ['\\', 'r']
  else if c = '\t' then ['\\', 't']
  else if c = '\x08' then ['\\', 'b']
  else if c = '\x0c' then ['\\', 'f']
  else
    let n := c.toNat
    if 0x20 ≤ n ∧ n < 0x7f then [c]
    else if n = 0x7f then [c]
    else if n < 0x10000 then escapeUnit n
    else
      let rest := n - 0x10000
      escapeUnit (0xd800 + rest / 0x400) ++ escapeUnit (0xdc00 + rest % 0x400)

def jsonString (s : String) : String :=
  String.ofList ('"' :: s.toList.flatMap jsonChar ++ ['"'])

mutual

def toJson : Value → String
  | .null => "null"
  | .bool b => if b then "true" else "false"
  | .int n => toString n
  | .float x => floatText ⟨"NaN", "Infinity"⟩ x
  | .text s => jsonString s
  | .list items => "[" ++ commaSeparated (jsonItems items) ++ "]"
  | .record fields => "\x7b" ++ commaSeparated (jsonFields fields) ++ "\x7d"

def jsonItems : List Value → List String
  | [] => []
  | v :: rest => v.toJson :: jsonItems rest

def jsonFields : List (String × Value) → List String
  | [] => []
  | (k, v) :: rest => (jsonString k ++ ": " ++ v.toJson) :: jsonFields rest

end

end HotReload.Value
