import HotReload.Failure
import HotReload.Value.Basic

/-!
# Sums of values

Numbers are added, texts and lists are put together; truth values count as zero and one.
-/
namespace HotReload.Value

/-- The number that a value counts as in a sum of integers. -/
def asInt? : Value → Option Int
  | .int n => some n
  | .bool b => some (if b then 1 else 0)
  | _ => none

def asFloat? : Value → Option Float
  | .float x => some x
  | v => v.asInt?.map Float.ofInt

def concatenationFault (left right : Value) : Failure :=
  .raised "TypeError"
    ("can only concatenate " ++ left.typeName ++ " (not " ++ "\"" ++ right.typeName ++
      "\") to " ++ left.typeName)

def operandFault (left right : Value) : Failure :=
  .raised "TypeError" ("unsupported operand type(s) for +: " ++ Text.quote left.typeName ++
    " and " ++ Text.quote right.typeName)

def plus : Value → Value → Except Failure Value
  | .text a, .text b => .ok (.text (a ++ b))
  | .list a, .list b => .ok (.list (a ++ b))
  | .text a, b => .error (concatenationFault (.text a) b)
  | .list a, b => .error (concatenationFault (.list a) b)
  | a, b =>
    match a.asInt?, b.asInt? with
    | some m, some n => .ok (.int (m + n))
    | _, _ =>
      match a.asFloat?, b.asFloat? with
      | some x, some y => .ok (.float (x + y))
      | _, _ => .error (operandFault a b)

end HotReload.Value
