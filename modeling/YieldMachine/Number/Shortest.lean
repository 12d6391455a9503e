import YieldMachine.Number.Binary64

/-!
The shortest decimal that reads back as a given double. Among grids of one, two, up to seventeen
significant digits, the first grid with a point in the double's rounding interval wins; of two points
the nearer, and of two equally near the larger.
-/

namespace YieldMachine

/-- The number `coefficient * 10 ^ exponent`. -/
structure Decimal where
  coefficient : Nat
  exponent : Int
  deriving DecidableEq, Repr

namespace Decimal

/-- Moves trailing zeros of the coefficient into the exponent. -/
def normalize : Nat → Decimal → Decimal
  | 0, d => d
  | n + 1, d =>
    if d.coefficient % 10 = 0 then normalize n ⟨d.coefficient / 10, d.exponent + 1⟩ else d

def digits (d : Decimal) : List Char := Nat.toDigits 10 d.coefficient

/-- Decimal exponent of the first digit of `num / den`. -/
def leading (num den : Nat) : Int :=
  if den ≤ num then ((Nat.toDigits 10 (num / den)).length : Int) - 1
  else -((Nat.toDigits 10 ((den + num - 1) / num - 1)).length : Int)

end Decimal

/-- A value `mid / den` with the reals that round to it; the ends belong to it if `closed`. -/
structure RoundingInterval where
  low : Nat
  mid : Nat
  high : Nat
  den : Nat
  closed : Bool

namespace RoundingInterval

/-- The interval of a positive finite double. The gap below a power of two is half the gap above. -/
def ofBinary64 (x : Binary64) : RoundingInterval :=
  let m := x.significand
  let below := if m = Binary64.fractionCount ∧ 1 < x.exponentField then 4 * m - 1 else 4 * m - 2
  let e := x.exponent - 2
  let scale := if 0 ≤ e then Nat.pow 2 e.toNat else 1
  ⟨below * scale, 4 * m * scale, (4 * m + 2) * scale,
    if 0 ≤ e then 1 else Nat.pow 2 (-e).toNat, m % 2 == 0⟩

/-- Measures in units of `10 ^ u`. -/
def inUnits (r : RoundingInterval) (u : Int) : RoundingInterval :=
  if 0 ≤ u then { r with den := r.den * Nat.pow 10 u.toNat }
  else
    let s := Nat.pow 10 (-u).toNat
    { r with low := r.low * s, mid := r.mid * s, high := r.high * s }

def contains (r : RoundingInterval) (n : Nat) : Bool :=
  if r.closed then r.low ≤ n * r.den && n * r.den ≤ r.high
  else r.low < n * r.den && n * r.den < r.high

/-- The integer inside the interval that is nearest to the value. -/
def nearest? (r : RoundingInterval) : Option Nat :=
  let n := r.mid / r.den
  match r.contains n, r.contains (n + 1) with
  | true, true => if 2 * (r.mid % r.den) < r.den then some n else some (n + 1)
  | true, false => some n
  | false, true => some (n + 1)
  | false, false => none

/-- The point with `n` significant digits, if the interval has one. -/
def point? (r : RoundingInterval) (n : Nat) : Option Decimal :=
  let u := Decimal.leading r.mid r.den - n + 1
  (r.inUnits u).nearest?.map (⟨·, u⟩)

end RoundingInterval

/-- Shortest decimal of the absolute value of a finite double. -/
def Binary64.shortest (x : Binary64) : Decimal :=
  if x.isZero then ⟨0, 0⟩
  else
    match (List.range' 1 17).findSome? (RoundingInterval.ofBinary64 x).point? with
    | some d => d.normalize 17
    | none => ⟨0, 0⟩

end YieldMachine
