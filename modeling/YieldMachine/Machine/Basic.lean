import YieldMachine.Engine
import YieldMachine.Machine.Config
import YieldMachine.Machine.Frame
import YieldMachine.Machine.Output
import YieldMachine.Program.Registry

/-!
The machine: an engine that runs the instructions of functions. Each step of it runs one instruction of the
innermost frame, or returns from that frame. Plain calls stack up frames within one execution; a call of a
generator function only makes a generator, whose execution will start one level deeper.
-/

namespace YieldMachine

/-- Steps taken and call depth of an execution, its innermost frame, and the frames that wait for calls. -/
structure Execution where
  steps : Nat
  depth : Nat
  frame : Frame
  callers : List Frame

structure Machine where
  registry : Registry
  config : Config

namespace Execution

def push (x : Execution) (v : Value) : Execution := { x with frame := x.frame.push v }

def await (x : Execution) (a : Awaiting) : Execution :=
  { x with frame := { x.frame with awaiting := a } }

/-- Counts one instruction; the counter stops at the greatest word. -/
def tick (x : Execution) : Execution := { x with steps := min (x.steps + 1) Config.wordMax }

/-- Ends the innermost frame. -/
def ret (x : Execution) (v : Value) : Action Nat Execution :=
  match x.callers with
  | [] => .finish v
  | caller :: rest =>
    .silent { x with depth := x.depth - 1, frame := caller.push v, callers := rest }

def values (x : Execution) : List Value := (x.frame :: x.callers).flatMap Frame.values

end Execution

namespace Machine

/-- The budget, if the execution has gone beyond it. -/
def exceeded? (m : Machine) (x : Execution) : Option Nat :=
  m.config.mode.budget?.filter (· < x.steps)

/-- Calls a function from the innermost frame. -/
def call (m : Machine) (x : Execution) (id : FunctionId) (arguments : List Value) :
    Action Nat Execution :=
  match m.registry.get? id with
  | none => .fail (.fault (.unknownFunction id.display))
  | some f =>
    if m.config.maxCallDepth ≤ x.depth then
      .fail (.fault (.callDepthExceeded m.config.maxCallDepth))
    else if f.isGenerator then .create (x.depth + 1) f arguments x
    else
      .silent { x with
        depth := x.depth + 1, frame := .ofCall f arguments, callers := x.frame :: x.callers }

/-- Carries out the effect of an instruction. -/
def apply (m : Machine) (out : Output) (x : Execution) :
    Effect → Output × Action Nat Execution
  | .go frame => (out, .silent { x with frame := frame })
  | .echo text frame => (out.print text, .silent { x with frame := frame })
  | .yieldValue v frame => (out, .yieldValue v { x with frame := frame })
  | .yieldPair k v frame => (out, .yieldPair k v { x with frame := frame })
  | .yieldFrom source frame => (out, .delegate source { x with frame := frame })
  | .call f arguments frame => (out, m.call { x with frame := frame } f arguments)
  | .ret v => (out, x.ret v)

/-- Runs the next instruction; the end of a body returns null. -/
def advance (m : Machine) (heap : Heap) (out : Output) (x : Execution) :
    Heap × Output × Action Nat Execution :=
  match x.frame.instruction? with
  | none => (heap, out, x.ret .null)
  | some i =>
    let x := x.tick
    match m.exceeded? x with
    | some budget => (heap, out, .fail (.fault (.budgetExceeded budget)))
    | none =>
      match ({ x.frame with pc := x.frame.pc + 1 } : Frame).execute heap i with
      | .error f => (heap, out, .fail (.fault f))
      | .ok (heap, effect) => (heap, m.apply out x effect)

/-- What a paused execution asks for when it goes on. -/
def wake (x : Execution) : Action Nat Execution :=
  match x.frame.awaiting with
  | .nothing => .silent x
  | .sent => .takeSent (x.await .nothing)
  | .delegationResult => .takeResult (x.await .nothing)

def step (m : Machine) (heap : Heap) (out : Output) (x : Execution) :
    Reply → Heap × Output × Action Nat Execution
  | .proceed => m.advance heap out x
  | .resume => (heap, out, wake x)
  | .reported => (heap, out, .suspend (x.await .sent))
  | .accepted => (heap, out, .askDelegating x)
  | .refused e => (heap, out, .fail (.delegation e))
  | .delegating true => (heap, out, .suspend (x.await .delegationResult))
  | .delegating false => (heap, out, .takeResult x)
  | .value v => (heap, out, .silent (x.push v))

/-- An execution of a function at a call depth. -/
def execution (depth : Nat) (f : Function) (arguments : List Value) : Execution :=
  ⟨0, depth, .ofCall f arguments, []⟩

/-- The machine as an engine; a generator's handle is the depth of its execution. -/
def engine (m : Machine) : Engine Nat Execution Output where
  start depth f arguments out := (execution depth f arguments, out)
  step := m.step
  discard _ out := out
  held := Execution.values

end Machine

end YieldMachine
