import YieldMachine.Machine.Arithmetic
import YieldMachine.Heap
import YieldMachine.Program.Function

/-!
Call frames, and what each instruction does to the frame that runs it.
-/

namespace YieldMachine

/-- What a paused frame pushes when it goes on. -/
inductive Awaiting where
  | nothing
  | sent
  | delegationResult
  deriving DecidableEq, Repr

/-- One activation of a function. The top of the stack comes first. -/
structure Frame where
  function : Function
  arguments : List Value
  locals : Array Value
  stack : List Value
  pc : Nat
  awaiting : Awaiting

namespace Frame

def ofCall (f : Function) (arguments : List Value) : Frame :=
  ⟨f, arguments, Array.replicate f.locals .null, [], 0, .nothing⟩

def values (x : Frame) : List Value := x.arguments ++ x.locals.toList ++ x.stack

def instruction? (x : Frame) : Option Instruction := x.function.body[x.pc]?

def push (x : Frame) (v : Value) : Frame := { x with stack := v :: x.stack }

/-- The counter has already passed the instruction that failed. -/
def underflow (x : Frame) : Fault := .stackUnderflow x.function.name (x.pc - 1)

def pop (x : Frame) : Except Fault (Value × Frame) :=
  match x.stack with
  | v :: rest => .ok (v, { x with stack := rest })
  | [] => .error x.underflow

/-- The top `n` values, lowest first. -/
def popMany (x : Frame) (n : Nat) : Except Fault (List Value × Frame) :=
  if n ≤ x.stack.length then .ok ((x.stack.take n).reverse, { x with stack := x.stack.drop n })
  else .error x.underflow

def jump (x : Frame) (target : Nat) : Except Fault Frame :=
  if target ≤ x.function.body.size then .ok { x with pc := target }
  else .error (.invalidJump x.function.name target)

def store (x : Frame) (i : Nat) (v : Value) : Except Fault Frame :=
  if i < x.locals.size then .ok { x with locals := x.locals.setIfInBounds i v }
  else .error (.localOutOfRange x.function.name i)

/-- Replaces the two top values by what `f` makes of them. -/
def binary (x : Frame) (h : Heap) (f : Value → Value → Except Fault Value) :
    Except Fault Frame := do
  let (b, x) ← x.pop
  let (a, x) ← x.pop
  let v ← f (h.deref a) (h.deref b)
  return x.push v

/-- Changes the table on top of the stack; the changed table is a new allocation. -/
def changeTop (x : Frame) (h : Heap) (operator : String)
    (f : Table Value → Except Fault (Table Value)) : Except Fault (Heap × Frame) :=
  match x.stack with
  | .array _ t :: rest => do
    let t ← f t
    let (v, h) := h.newArray t
    return (h, { x with stack := v :: rest })
  | v :: _ => .error (.typeMismatch operator v.typeName "array")
  | [] => .error x.underflow

end Frame

/-- What an instruction asks for beyond a change of its own frame. -/
inductive Effect where
  | go (frame : Frame)
  | echo (text : String) (frame : Frame)
  | yieldValue (v : Value) (frame : Frame)
  | yieldPair (k v : Value) (frame : Frame)
  | yieldFrom (source : Value) (frame : Frame)
  | call (f : FunctionId) (arguments : List Value) (frame : Frame)
  | ret (v : Value)

namespace Frame

def append (x : Frame) (h : Heap) : Except Fault (Heap × Frame) := do
  let (v, x) ← x.pop
  x.changeTop h "[]" fun t =>
    match t.push? v with
    | some (_, t) => .ok t
    | none => .error .arrayFull

def insert (x : Frame) (h : Heap) : Except Fault (Heap × Frame) := do
  let (v, x) ← x.pop
  let (offset, x) ← x.pop
  match h.key? offset with
  | some k => x.changeTop h "[]=" fun t => .ok (t.insert k v)
  | none => .error (.invalidArrayKey offset.typeName)

/-- Runs one instruction; the counter has passed it already. -/
def execute (x : Frame) (h : Heap) : Instruction → Except Fault (Heap × Effect)
  | .const v => .ok (h, .go (x.push v))
  | .loadArg i =>
    match x.arguments[i]? with
    | some v => .ok (h, .go (x.push v))
    | none => .error (.argumentOutOfRange x.function.name i)
  | .loadLocal i =>
    match x.locals[i]? with
    | some v => .ok (h, .go (x.push v))
    | none => .error (.localOutOfRange x.function.name i)
  | .storeLocal i => do
    let (v, x) ← x.pop
    let x ← x.store i v
    return (h, .go x)
  | .pop => do
    let (_, x) ← x.pop
    return (h, .go x)
  | .dup => do
    let (v, _) ← x.pop
    return (h, .go (x.push v))
  | .add => do
    let x ← x.binary h Arithmetic.add
    return (h, .go x)
  | .sub => do
    let x ← x.binary h Arithmetic.sub
    return (h, .go x)
  | .lt => do
    let x ← x.binary h Arithmetic.lt
    return (h, .go x)
  | .eq => do
    let x ← x.binary h Arithmetic.eq
    return (h, .go x)
  | .jump target => do
    let x ← x.jump target
    return (h, .go x)
  | .jumpIfFalse target => do
    let (v, x) ← x.pop
    if h.isTruthy v then return (h, .go x)
    else
      let x ← x.jump target
      return (h, .go x)
  | .newArray =>
    let (v, h) := h.newArray .empty
    .ok (h, .go (x.push v))
  | .arrayPush => do
    let (h, x) ← x.append h
    return (h, .go x)
  | .arraySet => do
    let (h, x) ← x.insert h
    return (h, .go x)
  | .yield => do
    let (v, x) ← x.pop
    return (h, .yieldValue v x)
  | .yieldPair => do
    let (v, x) ← x.pop
    let (k, x) ← x.pop
    return (h, .yieldPair k v x)
  | .yieldFrom => do
    let (source, x) ← x.pop
    return (h, .yieldFrom source x)
  | .instantiate f n => do
    let (args, x) ← x.popMany n
    return (h, .call f args x)
  | .echo => do
    let (v, x) ← x.pop
    return (h, .echo (h.display v) x)
  | .ret => .ok (h, .ret (x.stack.headD .null))
  | .throw message => .error (.thrown message)

end Frame

end YieldMachine
