/-!
# Shortest decimals

A binary floating-point number `m · 2 ^ q` stands for the interval of reals that
round to it, ends included when `m` is even. `shortest` finds the decimal with the
fewest digits in that interval, and of those the one nearest to the number.
-/
namespace HotReload

/-- The number `coefficient · 10 ^ exponent`. -/
structure Decimal where
  coefficient : Nat
  exponent : Int
  deriving Repr, DecidableEq

/-- The number `numerator / denominator`. -/
structure Ratio where
  numerator : Nat
  denominator : Nat

namespace Ratio

def ofScaled (m : Nat) (q : Int) : Ratio :=
  if 0 ≤ q then ⟨m * Nat.pow 2 q.toNat, 1⟩ else ⟨m, Nat.pow 2 (-q).toNat⟩

def ofDecimal (d : Decimal) : Ratio :=
  if 0 ≤ d.exponent then ⟨d.coefficient * Nat.pow 10 d.exponent.toNat, 1⟩
  else ⟨d.coefficient, Nat.pow 10 (-d.exponent).toNat⟩

def le (a b : Ratio) : Bool := a.numerator * b.denominator ≤ b.numerator * a.denominator

def lt (a b : Ratio) : Bool := a.numerator * b.denominator < b.numerator * a.denominator

/-- The distance between two numbers. -/
def distance (a b : Ratio) : Ratio :=
  let x := a.numerator * b.denominator
  let y := b.numerator * a.denominator
  ⟨(x - y) + (y - x), a.denominator * b.denominator⟩

/-- How many steps of `10 ^ g` fit below the number. -/
def steps (a : Ratio) (g : Int) : Nat :=
  if 0 ≤ g then a.numerator / (a.denominator * Nat.pow 10 g.toNat)
  else a.numerator * Nat.pow 10 (-g).toNat / a.denominator

end Ratio

/-- The reals that round to one binary number. -/
structure RoundingInterval where
  low : Ratio
  value : Ratio
  high : Ratio
  closed : Bool

/-- The interval of `m · 2 ^ q`; the gap below a power of two is half as wide when `narrow`. -/
def RoundingInterval.of (m : Nat) (q : Int) (narrow : Bool) : RoundingInterval where
  low := .ofScaled (if narrow then 4 * m - 1 else 4 * m - 2) (q - 2)
  value := .ofScaled (4 * m) (q - 2)
  high := .ofScaled (4 * m + 2) (q - 2)
  closed := m % 2 == 0

def RoundingInterval.holds (i : RoundingInterval) (d : Decimal) : Bool :=
  let x := Ratio.ofDecimal d
  if i.closed then i.low.le x && x.le i.high else i.low.lt x && x.lt i.high

namespace Decimal

/-- The decimal exponent of the leading digit, searched between `g` and `g - fuel`. -/
def leading (x : Ratio) : Nat → Int → Int
  | 0, g => g
  | fuel + 1, g => if 0 < x.steps g then g else leading x fuel (g - 1)

/-- The hit of the interval on the grid of multiples of `10 ^ g`, if there is one. -/
def onGrid (i : RoundingInterval) (g : Int) : Option Decimal :=
  let below : Decimal := ⟨i.value.steps g, g⟩
  let above : Decimal := ⟨i.value.steps g + 1, g⟩
  match i.holds below, i.holds above with
  | true, true =>
    let down := i.value.distance (.ofDecimal below)
    let up := i.value.distance (.ofDecimal above)
    if down.lt up then some below
    else if up.lt down then some above
    else some (if below.coefficient % 2 == 0 then below else above)
  | true, false => some below
  | false, true => some above
  | false, false => none

/-- The first hit on the grids from `10 ^ g` downwards. -/
def firstHit (i : RoundingInterval) : Nat → Int → Option Decimal
  | 0, _ => none
  | fuel + 1, g => (onGrid i g).or (firstHit i fuel (g - 1))

/-- Moves the zeros at the end of the coefficient into the exponent. -/
def normalize : Nat → Decimal → Decimal
  | 0, d => d
  | fuel + 1, d =>
    if d.coefficient ≠ 0 ∧ d.coefficient % 10 = 0 then
      normalize fuel ⟨d.coefficient / 10, d.exponent + 1⟩
    else d

/-- The shortest decimal that rounds to the positive number `m · 2 ^ q`. -/
def shortest (m : Nat) (q : Int) (narrow : Bool) : Decimal :=
  let i := RoundingInterval.of m q narrow
  let top := leading i.value 700 330
  normalize 400 ((firstHit i 20 top).getD ⟨i.value.steps top, top⟩)

end Decimal

end HotReload
