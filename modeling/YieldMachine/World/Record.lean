import YieldMachine.Transition
import YieldMachine.World.Basic

/-!
Running a body outside any generator. Its reports are noted down, what it asks for is answered from a
prepared record, and generators that it makes are kept in the world.
-/

namespace YieldMachine

/-- What a body told or asked whoever drives it. -/
inductive Callback where
  | yieldPair (key value : Value)
  | yieldValue (value : Value)
  | startDelegation (source : Value)
  | takeSent
  | takeResult

/-- How a request to delegate is answered. -/
inductive Consent where
  | inactive
  | active
  | refuse
  deriving DecidableEq, Repr

structure Record where
  sent : Value
  result : Value
  consent : Consent
  delegating : Bool
  calls : List Callback

namespace Record

/-- Answers everything with null and lets no delegation become active. -/
def silent : Record := ⟨.null, .null, .inactive, false, []⟩

def note (r : Record) (c : Callback) : Record := { r with calls := r.calls ++ [c] }

end Record

/-- How a run of a body ends. -/
inductive BodyOutcome (F : Type) where
  | suspended (frame : F)
  | returned (v : Value)
  | failed (e : BodyError)

namespace Record

variable {H F S : Type}

abbrev State (H F S : Type) := World H F S × Record × F × Reply

abbrev Result (H F S : Type) := World H F S × Record × BodyOutcome F

def perform (w : World H F S) (r : Record) :
    Action H F → Transition (State H F S) (Result H F S)
  | .silent frame => .next (w, r, frame, .proceed)
  | .yieldPair k v frame => .next (w, r.note (.yieldPair k v), frame, .reported)
  | .yieldValue v frame => .next (w, r.note (.yieldValue v), frame, .reported)
  | .delegate source frame =>
    let r := r.note (.startDelegation source)
    match r.consent with
    | .inactive => .next (w, r, frame, .accepted)
    | .active => .next (w, { r with delegating := true }, frame, .accepted)
    | .refuse => .next (w, r, frame, .refused .alreadyRunning)
  | .askDelegating frame => .next (w, r, frame, .delegating r.delegating)
  | .takeSent frame => .next (w, { r with sent := .null }.note .takeSent, frame, .value r.sent)
  | .takeResult frame =>
    .next (w, { r with result := .null }.note .takeResult, frame, .value r.result)
  | .create handle function arguments frame =>
    let (g, w) := w.create handle function arguments
    .next (w, r, frame, .value (.generator g))
  | .suspend frame => .halt (w, r, .suspended frame)
  | .finish v => .halt (w, r, .returned v)
  | .fail e => .halt (w, r, .failed e)

def step (E : Engine H F S) : State H F S → Transition (State H F S) (Result H F S)
  | (w, r, frame, reply) =>
    let (heap, state, action) := E.step w.heap w.state frame reply
    perform { w with heap := heap, state := state } r action

end Record

end YieldMachine
