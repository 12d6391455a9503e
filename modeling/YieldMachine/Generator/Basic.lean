import YieldMachine.Generator.Delegation
import YieldMachine.Program.Function

/-!
Generators: the state that one keeps between and during advances, and what a running body may do to it.
`H` is what a body engine needs to know of a generator besides its function and arguments, and `F` is the
engine's frame, held while the body is paused.
-/

namespace YieldMachine

/-- How far a generator has come: a fresh one has no flag, a paused one is started and suspended, a
finished one is started and finished. -/
structure Lifecycle where
  started : Bool
  finished : Bool
  suspended : Bool
  deriving DecidableEq, Repr

namespace Lifecycle

def fresh : Lifecycle := ⟨false, false, false⟩

def terminal : Lifecycle := ⟨true, true, false⟩

def bits (l : Lifecycle) : Nat :=
  (if l.started then 1 else 0) + (if l.finished then 2 else 0) + (if l.suspended then 4 else 0)

def inspect (l : Lifecycle) : String :=
  let names := (if l.started then ["STARTED"] else []) ++ (if l.finished then ["FINISHED"] else []) ++
    (if l.suspended then ["SUSPENDED"] else [])
  "Lifecycle(" ++ (if names.isEmpty then "0x0" else " | ".intercalate names) ++ ")"

end Lifecycle

structure Generator (H F : Type) where
  handle : H
  function : Function
  arguments : List Value
  lifecycle : Lifecycle
  key : Value
  value : Value
  /-- Largest integer key that the body itself yielded. -/
  largestKey : Option Int64
  delegation : Option Delegation
  /-- Value sent to the pending yield. -/
  sent : Value
  /-- Result of the last delegation that ended. -/
  delegationResult : Value
  frame : Option F
  returnValue : Option Value
  lastError : Option GeneratorError
  /-- Whether someone is driving the generator. -/
  locked : Bool

namespace Generator

variable {H F : Type}

def fresh (handle : H) (function : Function) (arguments : List Value) : Generator H F where
  handle := handle
  function := function
  arguments := arguments
  lifecycle := .fresh
  key := .null
  value := .null
  largestKey := none
  delegation := none
  sent := .null
  delegationResult := .null
  frame := none
  returnValue := none
  lastError := none
  locked := false

def isStarted (x : Generator H F) : Bool := x.lifecycle.started

def isFinished (x : Generator H F) : Bool := x.lifecycle.finished

def isValid (x : Generator H F) : Bool := x.isStarted && !x.isFinished

def isDelegating (x : Generator H F) : Bool := x.delegation.isSome

def rewind (x : Generator H F) : Except GeneratorError Unit :=
  if x.isStarted then .error .alreadyStarted else .ok ()

def getReturn (x : Generator H F) : Except GeneratorError Value :=
  match x.returnValue with
  | some v => .ok v
  | none => .error (if x.isFinished then .noReturnValue else .notFinished)

/-! ### What a running body does -/

def setPair (x : Generator H F) (k v : Value) : Generator H F :=
  { x with key := k, value := v }

/-- The largest integer key after a yield under `k`. -/
def raiseKey (largest : Option Int64) : Value → Option Int64
  | .int n =>
    match largest with
    | some m => if m < n then some n else some m
    | none => some n
  | _ => largest

def yieldPair (x : Generator H F) (k v : Value) : Generator H F :=
  { x with largestKey := raiseKey x.largestKey k }.setPair k v

/-- One past the largest integer key, never negative, and held at the largest integer. -/
def automaticKey (x : Generator H F) : Int64 :=
  match x.largestKey with
  | none => 0
  | some n => if saturatingSucc n < 0 then 0 else saturatingSucc n

def yieldValue (x : Generator H F) (v : Value) : Generator H F :=
  x.yieldPair (.int x.automaticKey) v

/-- A source gave its first pair. -/
def beginDelegation (x : Generator H F) (d : Delegation) (k v : Value) : Generator H F :=
  { x.setPair k v with
    delegation := some d
    lifecycle := { x.lifecycle with suspended := true } }

/-- A source had no pair to give. -/
def skipDelegation (x : Generator H F) (result : Value) : Generator H F :=
  { x with delegationResult := result }

/-- The active source has no more pairs. -/
def endDelegation (x : Generator H F) (result : Value) : Generator H F :=
  { x with delegation := none, delegationResult := result }

def clearSent (x : Generator H F) : Generator H F := { x with sent := .null }

def clearResult (x : Generator H F) : Generator H F := { x with delegationResult := .null }

/-! ### Entering and leaving the body -/

def begin (x : Generator H F) : Generator H F :=
  { x with lifecycle := { x.lifecycle with started := true } }

def deliver (x : Generator H F) : Option Value → Generator H F
  | some v => { x with sent := v }
  | none => x

/-- The held frame goes back to the engine. -/
def release (x : Generator H F) : Generator H F :=
  { x with frame := none, lifecycle := { x.lifecycle with suspended := false } }

def hold (x : Generator H F) (frame : F) : Generator H F :=
  { x with frame := some frame, lifecycle := { x.lifecycle with suspended := true } }

def terminate (x : Generator H F) : Generator H F :=
  { x with frame := none, delegation := none, lifecycle := .terminal }

def setReturn (x : Generator H F) (v : Value) : Generator H F := { x with returnValue := some v }

def setError (x : Generator H F) (e : GeneratorError) : Generator H F :=
  { x with lastError := some e }

def setLock (x : Generator H F) (b : Bool) : Generator H F := { x with locked := b }

/-- What an advance of this generator, which gave `r`, means to the one that delegates to it. A source
that was closed has the result null. -/
def outcome (x : Generator H F) (r : Except GeneratorError Bool) : Delegation.Outcome :=
  match r with
  | .ok true => .pair x.key x.value
  | _ =>
    match x.returnValue, x.lastError with
    | none, some e => .failed (.sourceFailed x.function.name e.message)
    | result, _ => .exhausted (result.getD .null)

end Generator

end YieldMachine
