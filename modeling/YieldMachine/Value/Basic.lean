import YieldMachine.Number.Binary64
import YieldMachine.Table.Basic

/-!
Dynamic values. Tables and objects carry the identity of their allocation, cells and generators are named
by their number in the store that holds them.
-/

namespace YieldMachine

abbrev AllocationId := Nat
abbrev CellId := Nat
abbrev GeneratorId := Nat

/-- A class name and properties in order of first assignment. -/
structure Object (α : Type) where
  className : String
  properties : List (String × α)

namespace Object

variable {α : Type}

def empty (className : String) : Object α := ⟨className, []⟩

def get? (o : Object α) (name : String) : Option α := o.properties.lookup name

def assign (name : String) (a : α) : List (String × α) → List (String × α)
  | [] => [(name, a)]
  | (n, b) :: rest => if n = name then (n, a) :: rest else (n, b) :: assign name a rest

def set (o : Object α) (name : String) (a : α) : Object α :=
  { o with properties := assign name a o.properties }

/-- Whether the object claims the class of generators; the letters' case does not matter. -/
def isGeneratorClass (o : Object α) : Bool :=
  o.className.toList.map Char.toLower == "generator".toList

end Object

/-- A host resource: its number and what it is. -/
structure Resource where
  id : UInt64
  kind : String
  deriving DecidableEq, Repr

inductive Value where
  | null
  | bool (b : Bool)
  | int (n : Int64)
  | float (x : Binary64)
  | text (s : String)
  | array (id : AllocationId) (table : Table Value)
  | object (id : AllocationId) (object : Object Value)
  | resource (r : Resource)
  | reference (cell : CellId)
  | generator (id : GeneratorId)

namespace Value

instance : Inhabited Value := ⟨.null⟩

def typeName : Value → String
  | .null => "null"
  | .bool _ => "bool"
  | .int _ => "int"
  | .float _ => "float"
  | .text _ => "string"
  | .array .. => "array"
  | .object .. => "object"
  | .resource _ => "resource"
  | .reference _ => "reference"
  | .generator _ => "Generator"

def asInt? : Value → Option Int64
  | .int n => some n
  | _ => none

def asText? : Value → Option String
  | .text s => some s
  | _ => none

def asTable? : Value → Option (Table Value)
  | .array _ t => some t
  | _ => none

end Value

def Key.toValue : Key → Value
  | .int n => .int n
  | .text s => .text s

end YieldMachine
