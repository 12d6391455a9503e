import YieldMachine.Error
import YieldMachine.Heap
import YieldMachine.Program.Function

/-!
Body engines. An engine runs the body of a generator step by step: given a frame and the reply to its last
action, it takes the next action. Whoever drives the body carries the action out and replies.
-/

namespace YieldMachine

inductive Reply where
  /-- Nothing was asked: go on. -/
  | proceed
  /-- The frame was paused and is taken up again. -/
  | resume
  /-- The pair was taken. -/
  | reported
  /-- The delegation was carried out. -/
  | accepted
  | refused (e : DelegationError)
  | delegating (active : Bool)
  | value (v : Value)

inductive Action (H F : Type) where
  /-- A step of the body alone. -/
  | silent (frame : F)
  | yieldPair (key value : Value) (frame : F)
  /-- Yields under the next automatic key. -/
  | yieldValue (value : Value) (frame : F)
  | delegate (source : Value) (frame : F)
  | askDelegating (frame : F)
  | takeSent (frame : F)
  | takeResult (frame : F)
  /-- Makes a generator; the reply is its value. -/
  | create (handle : H) (function : Function) (arguments : List Value) (frame : F)
  | suspend (frame : F)
  | finish (v : Value)
  | fail (e : BodyError)

/-- `S` is state of the engine that all bodies share. -/
structure Engine (H F S : Type) where
  start : H → Function → List Value → S → F × S
  step : Heap → S → F → Reply → Heap × S × Action H F
  /-- Gives up a paused frame. -/
  discard : F → S → S
  /-- The values that a frame holds. -/
  held : F → List Value

namespace Action

variable {H F H' F' : Type}

def map (h : H → H') (f : F → F') : Action H F → Action H' F'
  | .silent x => .silent (f x)
  | .yieldPair k v x => .yieldPair k v (f x)
  | .yieldValue v x => .yieldValue v (f x)
  | .delegate v x => .delegate v (f x)
  | .askDelegating x => .askDelegating (f x)
  | .takeSent x => .takeSent (f x)
  | .takeResult x => .takeResult (f x)
  | .create a b c x => .create (h a) b c (f x)
  | .suspend x => .suspend (f x)
  | .finish v => .finish v
  | .fail e => .fail e

end Action

namespace Engine

variable {H F S H' F' S' : Type}

/-- Two engines side by side, each with its own generators and its own state. -/
def sum (E : Engine H F S) (E' : Engine H' F' S') : Engine (H ⊕ H') (F ⊕ F') (S × S') where
  start
    | .inl h, f, args, s => let (x, s₁) := E.start h f args s.1; (.inl x, s₁, s.2)
    | .inr h, f, args, s => let (x, s₂) := E'.start h f args s.2; (.inr x, s.1, s₂)
  step heap s
    | .inl x, r => let (heap, s₁, a) := E.step heap s.1 x r; (heap, (s₁, s.2), a.map .inl .inl)
    | .inr x, r => let (heap, s₂, a) := E'.step heap s.2 x r; (heap, (s.1, s₂), a.map .inr .inr)
  discard
    | .inl x, s => (E.discard x s.1, s.2)
    | .inr x, s => (s.1, E'.discard x s.2)
  held
    | .inl x => E.held x
    | .inr x => E'.held x

end Engine

end YieldMachine
