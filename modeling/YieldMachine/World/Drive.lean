import YieldMachine.Transition
import YieldMachine.World.Basic

/-!
Driving a generator by one pair. A generator that delegates to another drives that one first, so a drive is
a chain of generators: the one in focus and those that wait for it, each locked while it is on the chain.
One step of the drive enters a generator, carries out one action of a body, or hands a result to the
generator that waits for it.
-/

namespace YieldMachine

/-- What the generator in focus is about to do. -/
inductive Focus (F : Type) where
  | enter (sent : Option Value)
  | body (frame : F) (reply : Reply)
  | settled (result : Except GeneratorError Bool)

/-- Where a generator waits for the one it delegates to: in its body, which has just named the source, or
paused between two pairs. -/
inductive Wait (F : Type) where
  | inBody (frame : F)
  | paused

structure Link (F : Type) where
  generator : GeneratorId
  resend : Option Value
  wait : Wait F

/-- A fresh generator that is sent a value runs to its first yield before it gets it; `resend` keeps the
value meanwhile. -/
structure Drive (F : Type) where
  current : GeneratorId
  resend : Option Value
  focus : Focus F
  waiting : List (Link F)

/-- How a generator is advanced from outside. -/
inductive Input where
  | next
  | send (v : Value)

/-- The value for the pending yield, if one is sent. -/
def Input.sent? : Input → Option Value
  | .next => none
  | .send v => some v

namespace Drive

variable {H F S : Type}

/-- Turns to a generator, with a value for its pending yield if there is one. -/
def turnTo (x : Generator H F) (g : GeneratorId) (sent : Option Value) (waiting : List (Link F)) :
    Drive F :=
  if x.isStarted then ⟨g, none, .enter sent, waiting⟩ else ⟨g, sent, .enter none, waiting⟩

/-- Starts the body of the generator in focus. -/
def start (E : Engine H F S) (w : World H F S) (d : Drive F) (x : Generator H F) :
    World H F S × Drive F :=
  let (frame, state) := E.start x.handle x.function x.arguments w.state
  ({ w with state := state }.modify d.current (·.begin), { d with focus := .body frame .proceed })

/-- Takes up the paused body of the generator in focus. -/
def resume (E : Engine H F S) (w : World H F S) (d : Drive F) : World H F S × Drive F :=
  match (w.generator? d.current).bind (·.frame) with
  | some frame => (w.modify d.current (·.release), { d with focus := .body frame .resume })
  | none => (w.finish E d.current, { d with focus := .settled (.ok false) })

/-- Ends the generator in focus by an error. -/
def fail (E : Engine H F S) (w : World H F S) (d : Drive F) (e : GeneratorError) :
    World H F S × Drive F :=
  (w.fail E d.current e, { d with focus := .settled (.error e) })

/-- Moves on to another generator and locks it; refused if that one is being driven. -/
def descend (w : World H F S) (d : Drive F) (g : GeneratorId) (sent : Option Value)
    (wait : Wait F) : Option (World H F S × Drive F) :=
  match w.generator? g with
  | some x =>
    if x.locked then none
    else some (w.lock g, turnTo x g sent (⟨d.current, d.resend, wait⟩ :: d.waiting))
  | none => none

/-- The generator in focus waited between two pairs, and its source was advanced. -/
def advanced (E : Engine H F S) (w : World H F S) (d : Drive F) :
    Delegation.Outcome → World H F S × Drive F
  | .pair k v => (w.modify d.current (·.setPair k v), { d with focus := .settled (.ok true) })
  | .exhausted r => resume E (w.modify d.current (·.endDelegation r)) d
  | .failed e => fail E w d (.delegation e)

/-- The body in focus named a source, and the source was asked for its first pair. -/
def delegated (w : World H F S) (d : Drive F) (frame : F) (source : Delegation) :
    Delegation.Outcome → World H F S × Drive F
  | .pair k v =>
    (w.modify d.current (·.beginDelegation source k v), { d with focus := .body frame .accepted })
  | .exhausted r =>
    (w.modify d.current (·.skipDelegation r), { d with focus := .body frame .accepted })
  | .failed e => (w, { d with focus := .body frame (.refused e) })

/-- Enters the generator in focus, which is `x`. -/
def enter (E : Engine H F S) (w : World H F S) (d : Drive F) (x : Generator H F)
    (sent : Option Value) : World H F S × Drive F :=
  if x.isFinished then (w, { d with focus := .settled (.ok false) })
  else
    match x.delegation with
    | some (.table t pending) =>
      match Delegation.visit t pending with
      | some ((k, v), rest) =>
        advanced E (w.modify d.current fun x => { x with delegation := some (.table t rest) }) d
          (.pair k v)
      | none => advanced E w d (.exhausted .null)
    | some (.child g) =>
      match descend w d g sent .paused with
      | some next => next
      | none => advanced E w d (.failed .alreadyRunning)
    | none =>
      if !x.isStarted then start E w d x
      else if x.lifecycle.suspended then resume E (w.modify d.current (·.deliver sent)) d
      else (w, { d with focus := .settled (.ok false) })

/-- The body in focus names a source to delegate to. -/
def delegate (w : World H F S) (d : Drive F) (source : Value) (frame : F) :
    World H F S × Drive F :=
  match Delegation.ofValue w.heap source with
  | .error e => (w, { d with focus := .body frame (.refused e) })
  | .ok (.table t pending) =>
    match Delegation.visit t pending with
    | some ((k, v), rest) => delegated w d frame (.table t rest) (.pair k v)
    | none => delegated w d frame (.table t pending) (.exhausted .null)
  | .ok (.child g) =>
    match descend w d g none (.inBody frame) with
    | some next => next
    | none => delegated w d frame (.child g) (.failed .alreadyRunning)

/-- Carries out an action of the body in focus. -/
def perform (E : Engine H F S) (w : World H F S) (d : Drive F) :
    Action H F → World H F S × Drive F
  | .silent frame => (w, { d with focus := .body frame .proceed })
  | .yieldPair k v frame =>
    (w.modify d.current (·.yieldPair k v), { d with focus := .body frame .reported })
  | .yieldValue v frame =>
    (w.modify d.current (·.yieldValue v), { d with focus := .body frame .reported })
  | .delegate source frame => delegate w d source frame
  | .askDelegating frame =>
    let active := (w.generator? d.current).any (·.isDelegating)
    (w, { d with focus := .body frame (.delegating active) })
  | .takeSent frame =>
    let v := ((w.generator? d.current).map (·.sent)).getD .null
    (w.modify d.current (·.clearSent), { d with focus := .body frame (.value v) })
  | .takeResult frame =>
    let v := ((w.generator? d.current).map (·.delegationResult)).getD .null
    (w.modify d.current (·.clearResult), { d with focus := .body frame (.value v) })
  | .create handle function arguments frame =>
    let (g, w) := w.create handle function arguments
    (w, { d with focus := .body frame (.value (.generator g)) })
  | .suspend frame => (w.modify d.current (·.hold frame), { d with focus := .settled (.ok true) })
  | .finish v => (w.complete E d.current v, { d with focus := .settled (.ok false) })
  | .fail e => fail E w d (.executionFailed e)

/-- Hands the result of the generator in focus to the one that waits for it. -/
def handOver (E : Engine H F S) (w : World H F S) (child : GeneratorId)
    (result : Except GeneratorError Bool) (link : Link F) (waiting : List (Link F)) :
    World H F S × Drive F :=
  let outcome := ((w.generator? child).map (·.outcome result)).getD (.exhausted .null)
  let w := w.unlock child
  let d : Drive F := ⟨link.generator, link.resend, .settled result, waiting⟩
  match link.wait with
  | .paused => advanced E w d outcome
  | .inBody frame => delegated w d frame (.child child) outcome

abbrev State (H F S : Type) := World H F S × Drive F

abbrev Result (H F S : Type) := World H F S × Except GeneratorError Bool

def step (E : Engine H F S) : State H F S → Transition (State H F S) (Result H F S)
  | (w, d) =>
    match d.focus with
    | .enter sent =>
      match w.generator? d.current with
      | some x => .next (enter E w d x sent)
      | none => .next (w, { d with focus := .settled (.ok false) })
    | .body frame reply =>
      let (heap, state, action) := E.step w.heap w.state frame reply
      .next (perform E { w with heap := heap, state := state } d action)
    | .settled result =>
      match d.resend, result with
      | some v, .ok _ => .next (w, { d with resend := none, focus := .enter (some v) })
      | _, result =>
        match d.waiting with
        | link :: waiting => .next (handOver E w d.current result link waiting)
        | [] => .halt (w.unlock d.current, result)

end Drive

namespace World

variable {H F S : Type}

/-- The drive that advances a generator from outside, if it is there and not being driven. -/
def open? (w : World H F S) (g : GeneratorId) (input : Input) : Option (Drive.State H F S) :=
  match w.generator? g with
  | some x =>
    if x.locked then none else some (w.lock g, Drive.turnTo x g input.sent? [])
  | none => none

/-- Advances a generator within `fuel` steps; none if it is being driven or the steps do not suffice. -/
def advance (E : Engine H F S) (fuel : Nat) (w : World H F S) (g : GeneratorId) (input : Input) :
    Option (Drive.Result H F S) :=
  (w.open? g input).bind (run (Drive.step E) fuel)

/-- Whether an advance produced a pair. -/
def produced : Except GeneratorError Bool → Bool
  | .ok b => b
  | .error _ => false

/-- What `f` makes of the next pairs of a generator, at most `max`, each at the moment it is produced. -/
def mapPairs {α : Type} (E : Engine H F S) (fuel : Nat) (f : World H F S → Value → Value → α)
    (w : World H F S) (g : GeneratorId) : Nat → Option (List α × World H F S)
  | 0 => some ([], w)
  | max + 1 =>
    (w.advance E fuel g .next).bind fun (w, r) =>
      match produced r, w.generator? g with
      | true, some x =>
        (mapPairs E fuel f w g max).map fun (as, w') => (f w x.key x.value :: as, w')
      | _, _ => some ([], w)

/-- The next pairs of a generator, at most `max`. -/
def pairs (E : Engine H F S) (fuel : Nat) (w : World H F S) (g : GeneratorId) (max : Nat) :
    Option (List (Value × Value) × World H F S) :=
  w.mapPairs E fuel (fun _ k v => (k, v)) g max

end World

end YieldMachine
