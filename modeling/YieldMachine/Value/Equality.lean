import YieldMachine.Value.Basic

/-!
Equality of values. Two tables or objects are equal if they are one allocation or have equal contents, in
order; cells and generators are equal if they are the same one; a NaN equals nothing.
-/

namespace YieldMachine

mutual

def Value.equal : Value → Value → Bool
  | .null, .null => true
  | .bool a, .bool b => a == b
  | .int a, .int b => a == b
  | .float a, .float b => a.numEq b
  | .text a, .text b => a == b
  | .array i t, .array j u => i == j || Table.equal t u
  | .object i o, .object j p => i == j || Object.equal o p
  | .resource a, .resource b => a == b
  | .reference a, .reference b => a == b
  | .generator a, .generator b => a == b
  | _, _ => false
termination_by structural v => v

def Table.equal : Table Value → Table Value → Bool
  | ⟨es, _, _⟩, ⟨fs, _, _⟩ => Table.entriesEqual es fs
termination_by structural t => t

def Table.entriesEqual : Array (Key × Value) → Array (Key × Value) → Bool
  | ⟨es⟩, ⟨fs⟩ => Table.listEqual es fs
termination_by structural es => es

def Table.listEqual : List (Key × Value) → List (Key × Value) → Bool
  | [], [] => true
  | e :: es, f :: fs => Table.entryEqual e f && Table.listEqual es fs
  | _, _ => false
termination_by structural es => es

def Table.entryEqual : Key × Value → Key × Value → Bool
  | (k, v), (l, w) => k == l && Value.equal v w
termination_by structural e => e

def Object.equal : Object Value → Object Value → Bool
  | ⟨c, ps⟩, ⟨d, qs⟩ => c == d && Object.propertiesEqual ps qs
termination_by structural o => o

def Object.propertiesEqual : List (String × Value) → List (String × Value) → Bool
  | [], [] => true
  | p :: ps, q :: qs => Object.propertyEqual p q && Object.propertiesEqual ps qs
  | _, _ => false
termination_by structural ps => ps

def Object.propertyEqual : String × Value → String × Value → Bool
  | (n, v), (m, w) => n == m && Value.equal v w
termination_by structural p => p

end

instance : BEq Value := ⟨Value.equal⟩

end YieldMachine
