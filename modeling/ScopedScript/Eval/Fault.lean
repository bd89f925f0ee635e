/-!
# Faults of a run

The ways in which a running program can stop before its end.
-/

namespace ScopedScript

/-- What is wrong with an operation of a running program. -/
inductive RuntimeFault where
  | operandNotNumber
  | operandsNotNumbers
  | operandsNotNumbersOrStrings
  /-- No scope of the chain that was searched binds the name. -/
  | undefinedVariable (name : String)
  /-- The one scope that was to bind the name does not, or no such scope is known. -/
  | unboundLocal (name : String)
  | undefinedProperty (name : String)
  | notCallable
  | arityMismatch (expected got : Nat)
  | notAnInstance
  | fieldOnNonInstance
  | superclassNotClass
  /-- The chain of scopes ends before the distance at which the name was to be found. -/
  | scopeMismatch (distance : Nat) (name : String)
  | topLevelReturn
  | native (name message : String)
  deriving DecidableEq, Repr

/-- The wording of a fault. -/
def RuntimeFault.message : RuntimeFault → String
  | operandNotNumber => "Operand must be a number."
  | operandsNotNumbers => "Operands must be numbers."
  | operandsNotNumbersOrStrings => "Operands must be two numbers or two strings."
  | undefinedVariable name => "Undefined variable '" ++ name ++ "'."
  | unboundLocal name => "Undefined variable '" ++ name ++ "'."
  | undefinedProperty name => "Undefined property '" ++ name ++ "'."
  | notCallable => "Can only call functions and classes."
  | arityMismatch expected got =>
    "Expected " ++ toString expected ++ " arguments but got " ++ toString got ++ "."
  | notAnInstance => "Only instances have properties."
  | fieldOnNonInstance => "Only instances have fields."
  | superclassNotClass => "Superclass must be a class."
  | scopeMismatch distance name =>
    "No enclosing scope at distance " ++ toString distance ++ " for '" ++ name ++ "'."
  | topLevelReturn => "Can't return from top-level code."
  | native name message => "Native function '" ++ name ++ "' failed: " ++ message

/-- Why a run stopped: an operation went wrong on a line, or what was printed was not taken. There
is no constructor for a text that cannot be read or resolved: every operation that can stop a run
raises one of these two, so no run stops for a reason that could have been found without it. -/
inductive Halt where
  | runtime (fault : RuntimeFault) (line : Nat)
  | output (reason : String)
  deriving DecidableEq, Repr

end ScopedScript
