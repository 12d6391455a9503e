/-!
Decimal text of integers: writing naturals and 64-bit integers, the value of a digit list, and reading
the canonical form back.
-/

namespace YieldMachine

def natText (n : Nat) : String := String.ofList (Nat.toDigits 10 n)

def intText (n : Int64) : String :=
  if n.toInt < 0 then "-" ++ natText n.toInt.natAbs else natText n.toInt.natAbs

/-- One of the ten ASCII digits. -/
def isDigit (c : Char) : Bool := '0' ≤ c && c ≤ '9'

/-- Positional value of a list of digits, most significant first. -/
def digitsValue (cs : List Char) : Nat :=
  cs.foldl (fun v c => 10 * v + (c.toNat - '0'.toNat)) 0

/-- A nonempty list of digits without a superfluous leading zero. -/
def isPlainNumeral : List Char → Bool
  | [] => false
  | ['0'] => true
  | c :: cs => c != '0' && (c :: cs).all isDigit

def int64? (n : Int) : Option Int64 :=
  if Int64.minValue.toInt ≤ n ∧ n ≤ Int64.maxValue.toInt then some (Int64.ofInt n) else none

/-- Reads the canonical decimal form of a 64-bit integer: no plus sign, no leading zero, no negative
zero. -/
def canonicalInt? : List Char → Option Int64
  | '-' :: cs => if isPlainNumeral cs && cs != ['0'] then int64? (-(digitsValue cs : Int)) else none
  | cs => if isPlainNumeral cs then int64? (digitsValue cs) else none

/-- The successor, except that the largest integer is its own. -/
def saturatingSucc (n : Int64) : Int64 :=
  if n = Int64.maxValue then n else n + 1

end YieldMachine
