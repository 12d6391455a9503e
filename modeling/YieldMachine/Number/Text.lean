import YieldMachine.Number.Integer
import YieldMachine.Number.Shortest

/-!
The two text forms of doubles. The plain form never uses an exponent and writes a whole number with all
its digits; the inspection form keeps a decimal point and turns to scientific notation outside
`[10 ^ -4, 10 ^ 16)`.
-/

namespace YieldMachine

namespace Decimal

/-- Digits with the decimal point set among them; a whole number has no point. -/
def positional (d : Decimal) : String :=
  let ds := d.digits
  let point := (ds.length : Int) + d.exponent
  String.ofList <|
    if 0 ≤ d.exponent then ds ++ List.replicate d.exponent.toNat '0'
    else if 0 < point then ds.take point.toNat ++ '.' :: ds.drop point.toNat
    else '0' :: '.' :: List.replicate (-point).toNat '0' ++ ds

/-- One digit, the others after a point, and the power of ten. -/
def scientific (d : Decimal) : String :=
  let ds := d.digits
  let power := (ds.length : Int) + d.exponent - 1
  let mantissa := ds.take 1 ++ (if ds.length = 1 then [] else '.' :: ds.drop 1)
  let sign := if power < 0 then ['-'] else []
  String.ofList (mantissa ++ 'e' :: sign ++ Nat.toDigits 10 power.natAbs)

/-- Whether the first digit stands at a power of ten from -4 to 15. -/
def isModerate (d : Decimal) : Bool :=
  let power := (d.digits.length : Int) + d.exponent - 1
  d.coefficient == 0 || (-4 ≤ power && power ≤ 15)

end Decimal

namespace Binary64

def withSign (x : Binary64) (text : String) : String :=
  if x.isNegative then "-" ++ text else text

def display (x : Binary64) : String :=
  if x.isNaN then "NaN"
  else if !x.isFinite then x.withSign "inf"
  else if x.isIntegral then x.withSign (natText x.floorAbs)
  else x.withSign x.shortest.positional

def inspect (x : Binary64) : String :=
  if x.isNaN then "NaN"
  else if !x.isFinite then x.withSign "inf"
  else
    let d := x.shortest
    if d.isModerate then
      x.withSign (if 0 ≤ d.exponent then d.positional ++ ".0" else d.positional)
    else x.withSign d.scientific

end Binary64

end YieldMachine
