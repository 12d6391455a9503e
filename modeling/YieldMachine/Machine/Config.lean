import YieldMachine.Number.Integer
import YieldMachine.Text.Blank

/-!
Limits on execution: a budget of instructions for each execution, or none, and the greatest depth of calls.
-/

namespace YieldMachine

inductive Mode where
  | unbounded
  | bounded (budget : Nat)
  deriving DecidableEq, Repr

def Mode.budget? : Mode → Option Nat
  | .unbounded => none
  | .bounded b => some b

def Mode.isBounded : Mode → Bool
  | .unbounded => false
  | .bounded _ => true

structure Config where
  mode : Mode
  maxCallDepth : Nat
  deriving DecidableEq, Repr

namespace Config

def standard : Config := ⟨.unbounded, 512⟩

/-- The greatest number of 64 bits, where step counters stop. -/
def wordMax : Nat := 0xffffffffffffffff

/-- Reads digits, after at most one plus sign, with a value of 64 bits. -/
def readWord? (cs : List Char) : Option Nat :=
  let digits := match cs with
    | '+' :: rest => rest
    | _ => cs
  if !digits.isEmpty && digits.all isDigit && digitsValue digits ≤ wordMax then
    some (digitsValue digits)
  else none

/-- The standard limits, with the budget that the setting gives; a setting that is no number is
ignored. -/
def ofSetting (setting : Option String) : Config :=
  match setting.bind fun s => readWord? (Text.trim s.toList) with
  | some n => { standard with mode := .bounded n }
  | none => standard

end Config

end YieldMachine
