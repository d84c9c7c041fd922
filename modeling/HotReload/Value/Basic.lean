import HotReload.Decimal.Notation
import HotReload.Text.Quoted

/-!
# Values

The values that scripts share, settings hold and the operator interface speaks:
null, truth values, integers, floating-point numbers, texts, lists and records. A
record keeps its fields in the order in which they were first given.
-/
namespace HotReload

inductive Value where
  | null
  | bool (b : Bool)
  | int (n : Int)
  | float (x : Float)
  | text (s : String)
  | list (items : List Value)
  | record (fields : List (String × Value))
  deriving Inhabited

namespace Value

def isNull : Value → Bool
  | .null => true
  | _ => false

/-- Whether the value counts as true in a test. -/
def isTruthy : Value → Bool
  | .null => false
  | .bool b => b
  | .int n => n ≠ 0
  | .float x => x != 0
  | .text s => s ≠ ""
  | .list items => !items.isEmpty
  | .record fields => !fields.isEmpty

/-- The name of the value's type. -/
def typeName : Value → String
  | .null => "NoneType"
  | .bool _ => "bool"
  | .int _ => "int"
  | .float _ => "float"
  | .text _ => "str"
  | .list _ => "list"
  | .record _ => "dict"

/-- Sets a field: in place when the record has it, else at the end. -/
def setField (key : String) (v : Value) : List (String × Value) → List (String × Value)
  | [] => [(key, v)]
  | (k, old) :: rest =>
    if k = key then (key, v) :: rest else (k, old) :: setField key v rest

def field? (key : String) (fields : List (String × Value)) : Option Value :=
  (fields.find? (·.1 = key)).map (·.2)

/-- The field of a record; nothing for a missing field or another value. -/
def get? (key : String) : Value → Option Value
  | .record fields => field? key fields
  | _ => none

def strings (ss : List String) : Value := .list (ss.map .text)

def commaSeparated (parts : List String) : String := String.intercalate ", " parts

mutual

/-- The value as a literal of the scripting language. -/
def literal : Value → String
  | .null => "None"
  | .bool true => "True"
  | .bool false => "False"
  | .int n => toString n
  | .float x => floatText ⟨"nan", "inf"⟩ x
  | .text s => Text.quote s
  | .list items => "[" ++ commaSeparated (literals items) ++ "]"
  | .record fields => "\x7b" ++ commaSeparated (fieldLiterals fields) ++ "\x7d"

def literals : List Value → List String
  | [] => []
  | v :: rest => v.literal :: literals rest

def fieldLiterals : List (String × Value) → List String
  | [] => []
  | (k, v) :: rest => (Text.quote k ++ ": " ++ v.literal) :: fieldLiterals rest

end

/-- The value as text: a text is itself, all else its literal. -/
def display : Value → String
  | .text s => s
  | v => v.literal

end Value

end HotReload
