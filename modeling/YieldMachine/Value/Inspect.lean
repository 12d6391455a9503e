import YieldMachine.Heap

/-!
The inspection text of values, which shows their structure. Inside the text of a cell, the same cell is
written as locked, so the text of a heap with cycles is finite.
-/

namespace YieldMachine

mutual

/-- Text of a value, given how cells and generators are written. -/
def Value.inspectWith (cell : CellId → String) (gen : GeneratorId → String) : Value → String
  | .null => "Null"
  | .bool b => if b then "Bool(true)" else "Bool(false)"
  | .int n => "Int(" ++ intText n ++ ")"
  | .float x => "Float(" ++ x.inspect ++ ")"
  | .text s => "Str(" ++ Text.quote s ++ ")"
  | .array _ t => "Array(" ++ Table.inspectWith cell gen t ++ ")"
  | .object _ o => "Object(" ++ Object.inspectWith cell gen o ++ ")"
  | .resource r => "Resource(ResourceHandle \x7b id: " ++ natText r.id.toNat ++ ", kind: " ++
      Text.quote r.kind ++ " \x7d)"
  | .reference c => "Reference(" ++ cell c ++ ")"
  | .generator g => "Generator(" ++ gen g ++ ")"
termination_by structural v => v

def Table.inspectWith (cell : CellId → String) (gen : GeneratorId → String) : Table Value → String
  | ⟨es, _, _⟩ => "\x7b" ++ ", ".intercalate (Table.entriesInspect cell gen es) ++ "\x7d"
termination_by structural t => t

def Table.entriesInspect (cell : CellId → String) (gen : GeneratorId → String) :
    Array (Key × Value) → List String
  | ⟨es⟩ => Table.listInspect cell gen es
termination_by structural es => es

def Table.listInspect (cell : CellId → String) (gen : GeneratorId → String) :
    List (Key × Value) → List String
  | [] => []
  | e :: es => Table.entryInspect cell gen e :: Table.listInspect cell gen es
termination_by structural es => es

def Table.entryInspect (cell : CellId → String) (gen : GeneratorId → String) :
    Key × Value → String
  | (k, v) => k.inspect ++ ": " ++ Value.inspectWith cell gen v
termination_by structural e => e

def Object.inspectWith (cell : CellId → String) (gen : GeneratorId → String) :
    Object Value → String
  | ⟨c, ps⟩ => "ObjectValue \x7b class_name: " ++ Text.quote c ++ ", properties: [" ++
      ", ".intercalate (Object.propertiesInspect cell gen ps) ++ "] \x7d"
termination_by structural o => o

def Object.propertiesInspect (cell : CellId → String) (gen : GeneratorId → String) :
    List (String × Value) → List String
  | [] => []
  | p :: ps => Object.propertyInspect cell gen p :: Object.propertiesInspect cell gen ps
termination_by structural ps => ps

def Object.propertyInspect (cell : CellId → String) (gen : GeneratorId → String) :
    String × Value → String
  | (n, v) => "(" ++ Text.quote n ++ ", " ++ Value.inspectWith cell gen v ++ ")"
termination_by structural p => p

end

namespace Heap

/-- Text of a cell, where the cells of `path` are being written around it. Each level adds a cell to the
path, so one level more than there are cells is enough. -/
def inspectCell (h : Heap) (gen : GeneratorId → String) : Nat → List CellId → CellId → String
  | 0, _, _ => "&<locked>"
  | n + 1, path, c =>
    if c ∈ path then "&<locked>"
    else "&" ++ (h.target c).inspectWith (inspectCell h gen n (c :: path)) gen

def inspect (h : Heap) (gen : GeneratorId → String) (v : Value) : String :=
  v.inspectWith (h.inspectCell gen (h.cells.size + 1) []) gen

def inspectTable (h : Heap) (gen : GeneratorId → String) (t : Table Value) : String :=
  Table.inspectWith (h.inspectCell gen (h.cells.size + 1) []) gen t

end Heap

end YieldMachine
