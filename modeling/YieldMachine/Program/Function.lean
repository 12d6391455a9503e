import YieldMachine.Value.Equality

/-!
Instructions and functions. Operands come from and results go to the operand stack of the frame that runs
the body; jump targets count instructions from the start of the body.
-/

namespace YieldMachine

abbrev FunctionId := Nat

inductive Instruction where
  | const (v : Value)
  | loadArg (i : Nat)
  | loadLocal (i : Nat)
  | storeLocal (i : Nat)
  | pop
  | dup
  | add
  | sub
  | lt
  | eq
  | jump (target : Nat)
  | jumpIfFalse (target : Nat)
  | newArray
  | arrayPush
  | arraySet
  | yield
  | yieldPair
  | yieldFrom
  | instantiate (f : FunctionId) (count : Nat)
  | echo
  | ret
  | throw (message : String)
  deriving BEq

namespace Instruction

/-- Whether a body pauses at this instruction. -/
def isYield : Instruction → Bool
  | .yield | .yieldPair | .yieldFrom => true
  | _ => false

def constant? : Instruction → Option Value
  | .const v => some v
  | _ => none

end Instruction

structure Function where
  name : String
  arity : Nat
  locals : Nat
  body : Array Instruction
  deriving BEq

namespace Function

/-- Calling a function with a yield instruction makes a generator instead of running the body. -/
def isGenerator (f : Function) : Bool := f.body.any Instruction.isYield

def constants (f : Function) : List Value := f.body.toList.filterMap Instruction.constant?

def inspect (f : Function) : String :=
  "FunctionRef(" ++ f.name ++ "/" ++ natText f.arity ++ ")"

end Function

/-- How a function is named by its number. -/
def FunctionId.display (f : FunctionId) : String := "fn#" ++ natText f

end YieldMachine
