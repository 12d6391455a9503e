import YieldMachine.Value.Basic

/-!
The cells and generators that a value names, through tables and objects of any depth but not through
cells.
-/

namespace YieldMachine

/-- Something that a store holds and values point to. -/
inductive Handle where
  | cell (c : CellId)
  | generator (g : GeneratorId)
  deriving DecidableEq, Repr

mutual

def Value.handles : Value → List Handle
  | .array _ t => Table.handles t
  | .object _ o => Object.handles o
  | .reference c => [.cell c]
  | .generator g => [.generator g]
  | _ => []
termination_by structural v => v

def Table.handles : Table Value → List Handle
  | ⟨es, _, _⟩ => Table.entriesHandles es
termination_by structural t => t

def Table.entriesHandles : Array (Key × Value) → List Handle
  | ⟨es⟩ => Table.listHandles es
termination_by structural es => es

def Table.listHandles : List (Key × Value) → List Handle
  | [] => []
  | e :: es => Table.entryHandles e ++ Table.listHandles es
termination_by structural es => es

def Table.entryHandles : Key × Value → List Handle
  | (_, v) => Value.handles v
termination_by structural e => e

def Object.handles : Object Value → List Handle
  | ⟨_, ps⟩ => Object.propertiesHandles ps
termination_by structural o => o

def Object.propertiesHandles : List (String × Value) → List Handle
  | [] => []
  | p :: ps => Object.propertyHandles p ++ Object.propertiesHandles ps
termination_by structural ps => ps

def Object.propertyHandles : String × Value → List Handle
  | (_, v) => Value.handles v
termination_by structural p => p

end

end YieldMachine
