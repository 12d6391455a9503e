import YieldMachine.Engine
import YieldMachine.Number.Integer

/-!
Scripts: bodies given as a list of what to report and ask for. Their engine counts the bodies it starts and
the frames it discards, and keeps a log.
-/

namespace YieldMachine

/-- One line of a script. -/
inductive Cue where
  | yieldPair (key value : Value)
  | yieldValue (value : Value)
  | reportPair (key value : Value)
  | reportValue (value : Value)
  | suspend
  /-- Delegates, and pauses while the delegation is active. -/
  | delegate (source : Value)
  | delegateArg (i : Nat)
  /-- Delegates without pausing. -/
  | start (source : Value)
  /-- Delegates and logs whether that worked. -/
  | attempt (source : Value)
  | logSent
  | logResult
  | logActive
  | fail (message : String)
  | ret (v : Value)

namespace Cue

def constants : Cue → List Value
  | .yieldPair k v | .reportPair k v => [k, v]
  | .yieldValue v | .reportValue v | .delegate v | .start v | .attempt v | .ret v => [v]
  | _ => []

end Cue

/-- The lines of each script, by name; a name that is given twice has the lines given last. -/
abbrev Scripts := Std.TreeMap String (Array Cue)

namespace Scripts

/-- The lines of a script; a name without a script has none. -/
def body (scripts : Scripts) (name : String) : Array Cue := scripts[name]?.getD #[]

def constants (scripts : Scripts) : List Value :=
  scripts.toList.flatMap fun s => s.2.toList.flatMap Cue.constants

end Scripts

namespace Script

structure Frame where
  body : Array Cue
  arguments : List Value
  pc : Nat

/-- What the engine has seen so far; the log's last entry comes last. -/
structure Tally where
  contexts : Nat
  discarded : Nat
  log : Array Value

def Tally.empty : Tally := ⟨0, 0, #[]⟩

def Tally.note (t : Tally) (v : Value) : Tally := { t with log := t.log.push v }

/-- Goes on with the next line; the end of a script returns null. -/
def advance (x : Frame) : Action Unit Frame :=
  match x.body[x.pc]? with
  | none => .finish .null
  | some cue =>
    let x := { x with pc := x.pc + 1 }
    match cue with
    | .yieldPair k v | .reportPair k v => .yieldPair k v x
    | .yieldValue v | .reportValue v => .yieldValue v x
    | .suspend => .suspend x
    | .delegate v | .start v | .attempt v => .delegate v x
    | .delegateArg i => .delegate (x.arguments[i]?.getD .null) x
    | .logSent => .takeSent x
    | .logResult => .takeResult x
    | .logActive => .askDelegating x
    | .fail m => .fail (.failure m)
    | .ret v => .finish v

/-- The line that the last action came from. -/
def lastCue? (x : Frame) : Option Cue := x.body[x.pc - 1]?

def step (t : Tally) (x : Frame) : Reply → Tally × Action Unit Frame
  | .proceed | .resume => (t, advance x)
  | .reported =>
    match lastCue? x with
    | some (.yieldPair ..) | some (.yieldValue _) => (t, .suspend x)
    | _ => (t, .silent x)
  | .accepted =>
    match lastCue? x with
    | some (.delegate _) | some (.delegateArg _) => (t, .askDelegating x)
    | some (.attempt _) => (t.note (.bool true), .silent x)
    | _ => (t, .silent x)
  | .refused e =>
    match lastCue? x with
    | some (.attempt _) => (t.note (.text e.message), .silent x)
    | _ => (t, .fail (.delegation e))
  | .delegating active =>
    match lastCue? x with
    | some .logActive => (t.note (.bool active), .silent x)
    | _ => (t, if active then .suspend x else .silent x)
  | .value v => (t.note v, .silent x)

/-- Scripts as an engine; a generator runs the script of its function's name. -/
def engine (scripts : Scripts) : Engine Unit Frame Tally where
  start _ f arguments t :=
    (⟨scripts.body f.name, arguments, 0⟩, { t with contexts := t.contexts + 1 })
  step heap t x r := (heap, step t x r)
  discard _ t := { t with discarded := t.discarded + 1 }
  held x := x.arguments

end Script

end YieldMachine
