import ScopedScript.Syntax.Basic

/-!
# The references of a program

Every place of a program at which a variable is looked up, in the order in which the places are
written: names that are read, names that are assigned to, `this`, and `super`.
-/

namespace ScopedScript

/-- What a place that looks a variable up does with it. -/
inductive Role where
  | read | assign | receiver | inherited
  deriving DecidableEq, Repr

/-- A place of a program at which a variable is looked up. The place of `super.method` shows the
name of the method. -/
structure Occurrence where
  id : NodeId
  role : Role
  name : Name
  deriving DecidableEq, Repr

/-- The place of a reference that has a given role. -/
def Reference.occurrence (ref : Reference) (role : Role) : Occurrence := ⟨ref.id, role, ref.name⟩

mutual

/-- The references of an expression. -/
def Expr.occurrences : Expr → List Occurrence
  | .literal _ => []
  | .unary _ _ operand => operand.occurrences
  | .binary _ _ left right => left.occurrences ++ right.occurrences
  | .logical _ _ left right => left.occurrences ++ right.occurrences
  | .grouping inner => inner.occurrences
  | .name ref => [ref.occurrence .read]
  | .assign ref value => ref.occurrence .assign :: value.occurrences
  | .call callee _ arguments => callee.occurrences ++ Expr.occurrencesAll arguments
  | .get object _ => object.occurrences
  | .set object _ value => object.occurrences ++ value.occurrences
  | .receiver id line => [⟨id, .receiver, ⟨receiverWord, line⟩⟩]
  | .inherited id line method => [⟨id, .inherited, ⟨method.text, line⟩⟩]

/-- The references of expressions. -/
def Expr.occurrencesAll : List Expr → List Occurrence
  | [] => []
  | e :: es => e.occurrences ++ Expr.occurrencesAll es

end

/-- The references of an expression that may be left out. -/
def Expr.occurrencesOption (e : Option Expr) : List Occurrence := e.toList.flatMap Expr.occurrences

mutual

/-- The references of a statement. -/
def Stmt.occurrences : Stmt → List Occurrence
  | .expression e => e.occurrences
  | .print e => e.occurrences
  | .var _ initial => Expr.occurrencesOption initial
  | .block body => Stmt.occurrencesAll body
  | .ifThen condition thenBranch => condition.occurrences ++ thenBranch.occurrences
  | .ifElse condition thenBranch elseBranch =>
    condition.occurrences ++ thenBranch.occurrences ++ elseBranch.occurrences
  | .loop condition body => condition.occurrences ++ body.occurrences
  | .function declaration => FunctionDecl.occurrences declaration
  | .giveBack _ value => Expr.occurrencesOption value
  | .classDef _ superclass methods =>
    superclass.toList.map (·.occurrence .read) ++ FunctionDecl.occurrencesAll methods

/-- The references of statements. -/
def Stmt.occurrencesAll : List Stmt → List Occurrence
  | [] => []
  | s :: ss => s.occurrences ++ Stmt.occurrencesAll ss

/-- The references of the body of a function. -/
def FunctionDecl.occurrences : FunctionDecl → List Occurrence
  | ⟨_, _, body⟩ => Stmt.occurrencesAll body

/-- The references of the bodies of methods. -/
def FunctionDecl.occurrencesAll : List FunctionDecl → List Occurrence
  | [] => []
  | d :: ds => FunctionDecl.occurrences d ++ FunctionDecl.occurrencesAll ds

end

/-- The references of a program, by number. -/
def occurrencesById (program : List Stmt) : List Occurrence :=
  (Stmt.occurrencesAll program).mergeSort fun a b => a.id ≤ b.id

end ScopedScript
