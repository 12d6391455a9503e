import YieldMachine.Error
import YieldMachine.Value.Equality

/-!
Arithmetic and comparison of values that are no references. Sums and differences of integers that leave
the 64-bit range are taken in floating point, as are mixed ones.
-/

namespace YieldMachine.Arithmetic

def number? : Value → Option Binary64
  | .int n => some (.ofInt n)
  | .float x => some x
  | _ => none

/-- Combines two numbers in floating point. -/
def inFloats (operator : String) (f : Binary64 → Binary64 → Value) (a b : Value) :
    Except Fault Value :=
  match number? a, number? b with
  | some x, some y => .ok (f x y)
  | _, _ => .error (.typeMismatch operator a.typeName b.typeName)

def exactly? (f : Int → Int → Int) : Value → Value → Option Int64
  | .int m, .int n => int64? (f m.toInt n.toInt)
  | _, _ => none

def add (a b : Value) : Except Fault Value :=
  match exactly? (· + ·) a b with
  | some n => .ok (.int n)
  | none => inFloats "+" (fun x y => .float (x.add y)) a b

def sub (a b : Value) : Except Fault Value :=
  match exactly? (· - ·) a b with
  | some n => .ok (.int n)
  | none => inFloats "-" (fun x y => .float (x.sub y)) a b

def lt (a b : Value) : Except Fault Value :=
  match a, b with
  | .int m, .int n => .ok (.bool (m < n))
  | .text s, .text t => .ok (.bool (s < t))
  | a, b => inFloats "<" (fun x y => .bool (x.numLt y)) a b

def eq (a b : Value) : Except Fault Value := .ok (.bool (a == b))

end YieldMachine.Arithmetic
