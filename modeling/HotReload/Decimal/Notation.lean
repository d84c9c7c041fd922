import HotReload.Decimal.Shortest

/-!
# Floating-point notation

A floating-point number is written with the fewest digits that read back: in
positional notation when its leading digit stands between 10⁻⁴ and 10¹⁵, with at
least one digit after the point, and otherwise with an exponent of a sign and at
least two digits.
-/
namespace HotReload

/-- A double as a sign and a magnitude. -/
inductive Magnitude where
  | notANumber
  | infinite
  | zero
  /-- The number `m · 2 ^ q`; `narrow` when it is the least of its binade. -/
  | finite (m : Nat) (q : Int) (narrow : Bool)

def Magnitude.ofBits (bits : Nat) : Magnitude :=
  let field : Nat := bits / Nat.pow 2 52 % Nat.pow 2 11
  let fraction : Nat := bits % Nat.pow 2 52
  if field = Nat.pow 2 11 - 1 then (if fraction = 0 then .infinite else .notANumber)
  else if field = 0 then
    (if fraction = 0 then .zero else .finite fraction (-1074) false)
  else .finite (Nat.pow 2 52 + fraction) ((field : Int) - 1075) (fraction == 0 && 1 < field)

namespace Decimal

def exponentText (e : Int) : String :=
  let digits := toString e.natAbs
  (if e < 0 then "e-" else "e+") ++ (if digits.length < 2 then "0" ++ digits else digits)

/-- The digits of a decimal without its sign. -/
def render (d : Decimal) : String :=
  let digits := Nat.toDigits 10 d.coefficient
  let point : Int := d.exponent + digits.length
  let text :=
    if -4 < point ∧ point ≤ 16 then
      if point ≤ 0 then '0' :: '.' :: List.replicate (-point).toNat '0' ++ digits
      else if digits.length ≤ point.toNat then
        digits ++ List.replicate (point.toNat - digits.length) '0' ++ ['.', '0']
      else digits.take point.toNat ++ '.' :: digits.drop point.toNat
    else
      (match digits with
        | [] => []
        | [c] => [c]
        | c :: rest => c :: '.' :: rest) ++ (exponentText (point - 1)).toList
  String.ofList text

end Decimal

/-- The words for what has no digits. -/
structure NumberWords where
  notANumber : String
  infinite : String

/-- The text of a double, with the given words for what has no digits. -/
def floatText (words : NumberWords) (x : Float) : String :=
  let bits := x.toBits.toNat
  let sign := if bits / Nat.pow 2 63 = 1 then "-" else ""
  match Magnitude.ofBits bits with
  | .notANumber => words.notANumber
  | .infinite => sign ++ words.infinite
  | .zero => sign ++ "0.0"
  | .finite m q narrow => sign ++ (Decimal.shortest m q narrow).render

/-- The part of a double before the point; none is left of what has no digits. -/
def wholePart (x : Float) : Int :=
  let bits := x.toBits.toNat
  match Magnitude.ofBits bits with
  | .finite m q _ =>
    let whole := if 0 ≤ q then m * Nat.pow 2 q.toNat else m / Nat.pow 2 (-q).toNat
    if bits / Nat.pow 2 63 = 1 then -Int.ofNat whole else Int.ofNat whole
  | _ => 0

end HotReload
