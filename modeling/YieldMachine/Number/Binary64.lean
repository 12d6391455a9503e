/-!
Double-precision numbers as their 64 bits. Equality, order and truncation are read off the bits; sums
and differences are the hardware's.
-/

namespace YieldMachine

structure Binary64 where
  bits : UInt64
  deriving DecidableEq, Repr, Inhabited

namespace Binary64

def ofFloat (x : Float) : Binary64 := ⟨x.toBits⟩

def toFloat (x : Binary64) : Float := Float.ofBits x.bits

def ofInt (n : Int64) : Binary64 := ofFloat n.toFloat

/-- Weight of the sign bit. -/
def signWeight : Nat := 0x8000000000000000

/-- Number of fractions between two powers of two. -/
def fractionCount : Nat := 0x10000000000000

def isNegative (x : Binary64) : Bool := signWeight ≤ x.bits.toNat

/-- The bits without the sign; increasing in the absolute value. -/
def magnitude (x : Binary64) : Nat := x.bits.toNat % signWeight

/-- Magnitude of the infinities; greater ones are NaN. -/
def infinity : Nat := 0x7ff0000000000000

def isNaN (x : Binary64) : Bool := infinity < x.magnitude

def isFinite (x : Binary64) : Bool := x.magnitude < infinity

def isZero (x : Binary64) : Bool := x.magnitude == 0

/-- Position on the number line of everything but NaN; both zeros have position 0. -/
def rank (x : Binary64) : Int :=
  if x.isNegative then -(x.magnitude : Int) else x.magnitude

/-- Numeric equality: NaN equals nothing, and the two zeros are equal. -/
def numEq (x y : Binary64) : Bool :=
  !x.isNaN && !y.isNaN && x.rank == y.rank

def numLt (x y : Binary64) : Bool :=
  !x.isNaN && !y.isNaN && decide (x.rank < y.rank)

def add (x y : Binary64) : Binary64 := ofFloat (x.toFloat + y.toFloat)

def sub (x y : Binary64) : Binary64 := ofFloat (x.toFloat - y.toFloat)

/-- The biased exponent; 0 for zeros and subnormals. -/
def exponentField (x : Binary64) : Nat := x.magnitude / fractionCount

/-- A finite number is `significand * 2 ^ exponent` in absolute value. -/
def significand (x : Binary64) : Nat :=
  if x.exponentField = 0 then x.magnitude % fractionCount
  else x.magnitude % fractionCount + fractionCount

def exponent (x : Binary64) : Int :=
  if x.exponentField = 0 then -1074 else (x.exponentField : Int) - 1075

/-- Absolute value as a fraction of naturals. -/
def fraction (x : Binary64) : Nat × Nat :=
  if 0 ≤ x.exponent then (x.significand * Nat.pow 2 x.exponent.toNat, 1)
  else (x.significand, Nat.pow 2 (-x.exponent).toNat)

def isIntegral (x : Binary64) : Bool :=
  x.isFinite && x.fraction.1 % x.fraction.2 == 0

/-- Integer part of the absolute value. -/
def floorAbs (x : Binary64) : Nat := x.fraction.1 / x.fraction.2

/-- Rounds toward zero; values out of range give the nearest bound. -/
def toInt64 (x : Binary64) : Int64 :=
  let n : Int := if x.isNegative then -(x.floorAbs : Int) else x.floorAbs
  if n < Int64.minValue.toInt then Int64.minValue
  else if Int64.maxValue.toInt < n then Int64.maxValue
  else Int64.ofInt n

end Binary64

end YieldMachine
