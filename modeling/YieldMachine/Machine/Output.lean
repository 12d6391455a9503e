/-!
Where echoed text goes. Only a capturing output can be read back.
-/

namespace YieldMachine

inductive Output where
  | console
  | silent
  | captured (text : String)
  deriving DecidableEq, Repr

namespace Output

def print (o : Output) (s : String) : Output :=
  match o with
  | .captured text => .captured (text ++ s)
  | o => o

def text : Output → String
  | .captured text => text
  | _ => ""

def clear : Output → Output
  | .captured _ => .captured ""
  | o => o

end Output

end YieldMachine
