import YieldMachine.Number.Text
import YieldMachine.Value.Basic

/-!
The heap: reference cells with their targets, and the supply of allocation identities. A cell never holds
a reference, so a value is followed in one step, and truth, plain text and the key of a value are those of
the value it leads to.
-/

namespace YieldMachine

structure Heap where
  cells : Array Value
  nextAllocation : AllocationId

namespace Heap

def empty : Heap := ⟨#[], 0⟩

instance : Inhabited Heap := ⟨empty⟩

def target (h : Heap) (c : CellId) : Value := h.cells[c]?.getD .null

/-- The value behind a reference; any other value itself. -/
def deref (h : Heap) : Value → Value
  | .reference c => h.target c
  | v => v

/-- A new cell; storing a reference stores what it leads to. -/
def newCell (h : Heap) (v : Value) : CellId × Heap :=
  (h.cells.size, { h with cells := h.cells.push (h.deref v) })

/-- Replaces a cell's target and gives the previous one. -/
def assign (h : Heap) (c : CellId) (v : Value) : Value × Heap :=
  (h.target c, { h with cells := h.cells.setIfInBounds c (h.deref v) })

def newArray (h : Heap) (t : Table Value) : Value × Heap :=
  (.array h.nextAllocation t, { h with nextAllocation := h.nextAllocation + 1 })

def newObject (h : Heap) (o : Object Value) : Value × Heap :=
  (.object h.nextAllocation o, { h with nextAllocation := h.nextAllocation + 1 })

end Heap

namespace Value

/-- Truth of a value that is no reference. -/
def truth : Value → Bool
  | .null => false
  | .bool b => b
  | .int n => n != 0
  | .float x => !x.isZero
  | .text s => s != "" && s != "0"
  | .array _ t => !t.isEmpty
  | _ => true

/-- Plain text of a value that is no reference. -/
def plainText : Value → String
  | .null => ""
  | .bool b => if b then "1" else ""
  | .int n => intText n
  | .float x => x.display
  | .text s => s
  | .array .. => "Array"
  | .object _ o => o.className
  | .resource r => "Resource id #" ++ natText r.id.toNat
  | .reference _ => ""
  | .generator _ => "Generator"

/-- The key that a value other than a reference stands for, if any. -/
def plainKey? : Value → Option Key
  | .null => some (.ofString "")
  | .bool b => some (.int (if b then 1 else 0))
  | .int n => some (.int n)
  | .float x => if x.isFinite then some (.int x.toInt64) else none
  | .text s => some (.ofString s)
  | .resource r => (int64? r.id.toNat).map .int
  | _ => none

end Value

namespace Heap

def isTruthy (h : Heap) (v : Value) : Bool := (h.deref v).truth

def display (h : Heap) (v : Value) : String := (h.deref v).plainText

def key? (h : Heap) (v : Value) : Option Key := (h.deref v).plainKey?

end Heap

end YieldMachine
