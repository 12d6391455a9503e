import YieldMachine.Machine.Basic
import YieldMachine.Script
import YieldMachine.World.Drive
import YieldMachine.World.Reclaim
import YieldMachine.World.Record

/-!
A session: one machine and one set of scripts whose generators share a world, and what a user does with
them.
-/

namespace YieldMachine

structure Session where
  machine : Machine
  scripts : Scripts
  world : World (Nat ⊕ Unit) (Execution ⊕ Script.Frame) (Output × Script.Tally)

namespace Session

def engine (s : Session) : Engine (Nat ⊕ Unit) (Execution ⊕ Script.Frame) (Output × Script.Tally) :=
  s.machine.engine.sum (Script.engine s.scripts)

def output (s : Session) : Output := s.world.state.1

def tally (s : Session) : Script.Tally := s.world.state.2

def setHeap (s : Session) (h : Heap) : Session := { s with world := { s.world with heap := h } }

def clearOutput (s : Session) : Session :=
  { s with world := { s.world with state := (s.output.clear, s.tally) } }

def function (s : Session) (name : String) : Except Fault Function :=
  match s.machine.registry.getByName? name with
  | some f => .ok f
  | none => .error (.unknownFunction name)

/-- Makes a generator of a function of the machine. -/
def generator (s : Session) (name : String) (arguments : List Value) :
    Except Fault (GeneratorId × Session) := do
  let f ← s.function name
  if f.isGenerator then
    let (g, w) := s.world.create (.inl 0) f arguments
    return (g, { s with world := w })
  else throw (.notAGenerator name)

/-- Makes a generator of a script. -/
def scripted (s : Session) (name : String) (arguments : List Value) : GeneratorId × Session :=
  let (g, w) := s.world.create (.inr ()) ⟨name, 0, 0, #[]⟩ arguments
  (g, { s with world := w })

/-- Runs an execution apart from any generator, answering it from a record. It stays an execution of the
machine, so it never ends in a frame of a script. -/
def runBody (s : Session) (fuel : Nat) (x : Execution) (reply : Reply) (r : Record) :
    Option (Session × Record × BodyOutcome Execution) :=
  (run (Record.step s.engine) fuel (s.world, r, .inl x, reply)).map fun (w, r, o) =>
    ({ s with world := w }, r,
      match o with
      | .suspended (.inl x) => .suspended x
      | .suspended (.inr _) => .returned .null
      | .returned v => .returned v
      | .failed e => .failed e)

/-- Calls a function: a generator function gives a new generator, any other runs to its end. -/
def call (s : Session) (fuel : Nat) (name : String) (arguments : List Value) :
    Option (Session × Except BodyError Value) :=
  match s.function name with
  | .error e => some (s, .error (.fault e))
  | .ok f =>
    if s.machine.config.maxCallDepth = 0 then some (s, .error (.fault (.callDepthExceeded 0)))
    else if f.isGenerator then
      let (g, w) := s.world.create (.inl 1) f arguments
      some ({ s with world := w }, .ok (.generator g))
    else
      (s.runBody fuel (Machine.execution 1 f arguments) .proceed .silent).map fun (s, _, o) =>
        (s, match o with
          | .returned v => .ok v
          | .failed e => .error e
          | .suspended _ => .error (.fault (.notAGenerator f.name)))

def advance (s : Session) (fuel : Nat) (g : GeneratorId) (input : Input) :
    Option (Session × Except GeneratorError Bool) :=
  (s.world.advance s.engine fuel g input).map fun (w, r) => ({ s with world := w }, r)

/-- What `f` makes of the next pairs of a generator, each at the moment it is produced. -/
def mapPairs {α : Type} (s : Session) (fuel : Nat) (f : Session → Value → Value → α)
    (g : GeneratorId) (max : Nat) : Option (Session × List α) :=
  (s.world.mapPairs s.engine fuel (fun w => f { s with world := w }) g max).map fun (as, w) =>
    ({ s with world := w }, as)

def close (s : Session) (g : GeneratorId) : Session :=
  { s with world := s.world.close s.engine g }

def lock (s : Session) (g : GeneratorId) : Session := { s with world := s.world.lock g }

def unlock (s : Session) (g : GeneratorId) : Session := { s with world := s.world.unlock g }

/-- Drops every generator that neither the machine's constants, the scripts and their log, nor what the
user holds lead to. -/
def reclaim (s : Session) (userHeld : List Handle) : Session :=
  let constants := s.machine.registry.functions.toList.flatMap Function.constants ++
    s.scripts.constants ++ s.tally.log.toList
  let roots := userHeld ++ constants.flatMap Value.handles
  { s with world := s.world.reclaim s.engine roots }

end Session

end YieldMachine
