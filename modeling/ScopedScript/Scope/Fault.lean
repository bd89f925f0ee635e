import ScopedScript.Syntax.Basic

/-!
# Faults of scoping

What can be wrong with the names of a program, and the place that is blamed for it.
-/

namespace ScopedScript

/-- What is wrong with the names of a program. -/
inductive ScopeFault where
  | redeclared
  | readInOwnInitializer
  | returnOutsideFunction
  | valueFromInitializer
  | receiverOutsideClass
  | superOutsideClass
  | superWithoutSuperclass
  | inheritsFromItself
  deriving DecidableEq, Repr

/-- The wording of a fault. -/
def ScopeFault.message : ScopeFault → String
  | redeclared => "Already a variable with this name in this scope."
  | readInOwnInitializer => "Can't read local variable in its own initializer."
  | returnOutsideFunction => "Can't return from top-level code."
  | valueFromInitializer => "Can't return a value from an initializer."
  | receiverOutsideClass => "Can't use 'this' outside of a class."
  | superOutsideClass => "Can't use 'super' outside of a class."
  | superWithoutSuperclass => "Can't use 'super' in a class with no superclass."
  | inheritsFromItself => "A class can't inherit from itself."

/-- A fault, and the word that is blamed for it. -/
structure ScopeError where
  fault : ScopeFault
  blamed : Name
  deriving DecidableEq, Repr

end ScopedScript
