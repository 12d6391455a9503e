import YieldMachine.Program.Function

/-!
The registry numbers functions in the order of their registration and finds them by number and by name.
A name is registered once.
-/

namespace YieldMachine

inductive RegistryError where
  | duplicate (name : String)
  | full
  deriving DecidableEq, Repr

def RegistryError.message : RegistryError → String
  | .duplicate name => "function `" ++ name ++ "` is already registered"
  | .full => "too many functions registered"

structure Registry where
  functions : Array Function
  byName : Std.TreeMap String FunctionId

namespace Registry

def empty : Registry := ⟨#[], ∅⟩

instance : Inhabited Registry := ⟨empty⟩

def size (r : Registry) : Nat := r.functions.size

def isEmpty (r : Registry) : Bool := r.functions.isEmpty

/-- Function numbers fit 32 bits. -/
def capacity : Nat := 0x100000000

/-- Enters a function in place: its name is looked up and a number is taken, then the index learns the name, and then
the function is added. -/
def enter (f : Function) : StateM Registry (Except RegistryError FunctionId) := do
  let r ← get
  if r.byName.contains f.name then return .error (.duplicate f.name)
  if capacity ≤ r.functions.size then return .error .full
  let id := r.functions.size
  modify fun r => { r with byName := r.byName.insert f.name id }
  modify fun r => { r with functions := r.functions.push f }
  return .ok id

/-- Registers a function: its number and the registry with it, or the reason why it is refused. -/
def register (r : Registry) (f : Function) : Except RegistryError (FunctionId × Registry) :=
  match (enter f).run r with
  | (.ok id, r') => .ok (id, r')
  | (.error e, _) => .error e

def get? (r : Registry) (id : FunctionId) : Option Function := r.functions[id]?

def lookup (r : Registry) (name : String) : Option FunctionId := r.byName[name]?

def getByName? (r : Registry) (name : String) : Option Function := (r.lookup name).bind r.get?

/-- Whether a name and a number find one registered function; none if either finds nothing. -/
def isSame? (r : Registry) (name : String) (id : FunctionId) : Option Bool :=
  match r.getByName? name, r.get? id with
  | some _, some _ => some (r.lookup name == some id)
  | _, _ => none

end Registry

end YieldMachine
