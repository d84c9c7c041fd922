import HotReload.Value.Basic

/-!
# Reading values

What a value is when it is taken for a number, a list or a record, and the fields of
records with the same in mind. A value of another type is taken for nothing of the kind.
-/
namespace HotReload.Value

/-- A list's items; nothing for another value. -/
def items : Value → List Value
  | .list xs => xs
  | _ => []

def fields : Value → List (String × Value)
  | .record fs => fs
  | _ => []

/-- The whole part of a number. -/
def toInt : Value → Int
  | .int n => n
  | .float x => wholePart x
  | .bool true => 1
  | _ => 0

def toFloat : Value → Float
  | .int n => Float.ofInt n
  | .float x => x
  | _ => 0.0

/-- The text in a field; nothing for a value of another type. -/
def textAt? (key : String) (v : Value) : Option String :=
  match v.get? key with
  | some (.text s) => some s
  | _ => none

def textAt (key : String) (v : Value) : String := (v.textAt? key).getD ""

def itemsAt (key : String) (v : Value) : List Value := ((v.get? key).map items).getD []

def fieldsAt (key : String) (v : Value) : List (String × Value) := ((v.get? key).map fields).getD []

/-- The items of a list in a field, as texts. -/
def textsAt (key : String) (v : Value) : List String := (v.itemsAt key).map display

/-- Whether a field's value counts as true; null counts as not given. -/
def boolAt (key : String) (default : Bool) (v : Value) : Bool :=
  match v.get? key with
  | none | some .null => default
  | some x => x.isTruthy

/-- A field that null leaves out. -/
def given? (key : String) (v : Value) : Option Value :=
  match v.get? key with
  | none | some .null => none
  | some x => some x

def intAt (key : String) (default : Int) (v : Value) : Int := ((v.get? key).map toInt).getD default

def natAt (key : String) (default : Nat) (v : Value) : Nat := (v.intAt key default).toNat

def floatAt (key : String) (default : Float) (v : Value) : Float :=
  ((v.get? key).map toFloat).getD default

end HotReload.Value
