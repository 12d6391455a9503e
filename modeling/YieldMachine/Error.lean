import YieldMachine.Number.Integer

/-!
What can go wrong, by cause, and the wording of each cause.
-/

namespace YieldMachine

/-- Faults of the machine while it runs instructions. -/
inductive Fault where
  | stackUnderflow (function : String) (pc : Nat)
  | typeMismatch (operator left right : String)
  | unknownFunction (name : String)
  | argumentOutOfRange (function : String) (index : Nat)
  | localOutOfRange (function : String) (index : Nat)
  | invalidJump (function : String) (target : Nat)
  | invalidArrayKey (typeName : String)
  | arrayFull
  | thrown (message : String)
  | budgetExceeded (budget : Nat)
  | callDepthExceeded (limit : Nat)
  | notAGenerator (name : String)
  deriving DecidableEq, Repr

/-- Reasons why a source cannot be delegated to, or stops doing so. -/
inductive DelegationError where
  | alreadyRunning
  | unsupportedSource (typeName : String)
  | missingBinding
  | sourceFailed (function message : String)
  deriving DecidableEq, Repr

/-- Errors that end a running body. -/
inductive BodyError where
  | fault (f : Fault)
  | failure (message : String)
  | delegation (e : DelegationError)
  deriving DecidableEq, Repr

/-- Errors that a generator reports to its user. -/
inductive GeneratorError where
  | alreadyStarted
  | notFinished
  | noReturnValue
  | delegation (e : DelegationError)
  | executionFailed (e : BodyError)
  deriving DecidableEq, Repr

def Fault.message : Fault → String
  | .stackUnderflow f pc => "operand stack underflow in `" ++ f ++ "` at instruction " ++ natText pc
  | .typeMismatch op l r => "unsupported operand types for " ++ op ++ ": " ++ l ++ " and " ++ r
  | .unknownFunction name => "call to undefined function " ++ name ++ "()"
  | .argumentOutOfRange f i => "`" ++ f ++ "` has no argument " ++ natText i
  | .localOutOfRange f i => "`" ++ f ++ "` has no local slot " ++ natText i
  | .invalidJump f target => "jump target " ++ natText target ++ " is outside `" ++ f ++ "`"
  | .invalidArrayKey t => "illegal offset type " ++ t
  | .arrayFull => "cannot add element to the array as the next element is already occupied"
  | .thrown m => "uncaught exception: " ++ m
  | .budgetExceeded b => "step budget of " ++ natText b ++ " instructions exceeded"
  | .callDepthExceeded limit => "maximum call depth of " ++ natText limit ++ " reached"
  | .notAGenerator name => "`" ++ name ++ "` is not a generator function"

def DelegationError.message : DelegationError → String
  | .alreadyRunning => "cannot resume an already running generator"
  | .unsupportedSource t =>
    "can use \"yield from\" only with arrays and generators, " ++ t ++ " given"
  | .missingBinding => "generator object has no generator bound to it"
  | .sourceFailed f m => "delegated generator `" ++ f ++ "` failed: " ++ m

def BodyError.message : BodyError → String
  | .fault f => f.message
  | .failure m => "script failure: " ++ m
  | .delegation e => e.message

def GeneratorError.message : GeneratorError → String
  | .alreadyStarted => "cannot rewind a generator that was already run"
  | .notFinished => "cannot get return value of a generator that hasn't returned"
  | .noReturnValue => "generator finished without returning a value"
  | .delegation e => e.message
  | .executionFailed e => "execution failed: " ++ e.message

end YieldMachine
