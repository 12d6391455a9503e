import YieldMachine.Engine
import YieldMachine.Generator.Basic
import YieldMachine.Value.Inspect

/-!
The world that an engine's generators live in: the heap, the engine's shared state, and the generators by
number.
-/

namespace YieldMachine

structure World (H F S : Type) where
  heap : Heap
  state : S
  generators : Array (Generator H F)

namespace World

variable {H F S : Type}

def generator? (w : World H F S) (g : GeneratorId) : Option (Generator H F) := w.generators[g]?

def modify (w : World H F S) (g : GeneratorId) (f : Generator H F → Generator H F) : World H F S :=
  { w with generators := w.generators.modify g f }

/-- A new generator; nothing of its body runs yet. -/
def create (w : World H F S) (handle : H) (function : Function) (arguments : List Value) :
    GeneratorId × World H F S :=
  (w.generators.size,
    { w with generators := w.generators.push (.fresh handle function arguments) })

def isLocked (w : World H F S) (g : GeneratorId) : Bool :=
  match w.generator? g with
  | some x => x.locked
  | none => true

def lock (w : World H F S) (g : GeneratorId) : World H F S := w.modify g (·.setLock true)

def unlock (w : World H F S) (g : GeneratorId) : World H F S := w.modify g (·.setLock false)

/-- Ends a generator; a held frame is discarded. -/
def finish (w : World H F S) (E : Engine H F S) (g : GeneratorId) : World H F S :=
  match (w.generator? g).bind (·.frame) with
  | some frame => { w with state := E.discard frame w.state }.modify g (·.terminate)
  | none => w.modify g (·.terminate)

/-- Ends a generator by an error. -/
def fail (w : World H F S) (E : Engine H F S) (g : GeneratorId) (e : GeneratorError) :
    World H F S :=
  (w.finish E g).modify g (·.setError e)

/-- Ends a generator by its body's return. -/
def complete (w : World H F S) (E : Engine H F S) (g : GeneratorId) (v : Value) : World H F S :=
  (w.modify g (·.setReturn v)).finish E g

/-- Finishes a generator now, unless it is finished. -/
def close (w : World H F S) (E : Engine H F S) (g : GeneratorId) : World H F S :=
  match w.generator? g with
  | some x => if x.isFinished then w else w.finish E g
  | none => w

/-- How a generator is written inside the text of a value. -/
def inspectHandle (w : World H F S) (g : GeneratorId) : String :=
  match w.generator? g with
  | some x =>
    if x.locked then "Generator(<running>)"
    else "Generator(" ++ x.function.name ++ ", finished=" ++
      (if x.isFinished then "true" else "false") ++ ")"
  | none => "Generator(<running>)"

def inspect (w : World H F S) (v : Value) : String := w.heap.inspect w.inspectHandle v

def inspectTable (w : World H F S) (t : Table Value) : String :=
  w.heap.inspectTable w.inspectHandle t

def inspectGenerator (w : World H F S) (x : Generator H F) : String :=
  "Generator \x7b function: " ++ Text.quote x.function.name ++
    ", lifecycle: " ++ x.lifecycle.inspect ++ ", key: " ++ w.inspect x.key ++
    ", value: " ++ w.inspect x.value ++ ", delegating: " ++
    (if x.isDelegating then "true" else "false") ++ ", .. \x7d"

end World

end YieldMachine
