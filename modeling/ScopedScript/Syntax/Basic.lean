/-!
# Syntax trees

A program is a list of statements. Every reference to a variable carries a number of its own, so
that what is found out about one reference is not mixed up with what is found out about another
reference to the same name. Names and operators keep the line they stand on, for messages.
-/

namespace ScopedScript

/-- A name, and the line it stands on. -/
structure Name where
  text : String
  line : Nat
  deriving DecidableEq, Repr, Inhabited

/-- The number of a reference. -/
abbrev NodeId := Nat

/-- A reference to a variable. -/
structure Reference where
  id : NodeId
  name : Name
  deriving DecidableEq, Repr, Inhabited

/-- A constant. -/
inductive Literal where
  | number (value : Float)
  | string (text : String)
  | bool (value : Bool)
  | nil
  deriving Inhabited

/-- An operator with one operand. -/
inductive UnaryOp where
  | negate | not
  deriving DecidableEq, Repr

/-- An operator that needs the values of both its operands. -/
inductive BinaryOp where
  | add | subtract | multiply | divide
  | equal | notEqual | less | lessEqual | greater | greaterEqual
  deriving DecidableEq, Repr

/-- An operator that may do without its second operand. -/
inductive LogicalOp where
  | and | or
  deriving DecidableEq, Repr

/-- An expression. A `line` is that of the operator, of the closing parenthesis of a call, or of
the keyword `this` or `super`. -/
inductive Expr where
  | literal (value : Literal)
  | unary (op : UnaryOp) (line : Nat) (operand : Expr)
  | binary (op : BinaryOp) (line : Nat) (left right : Expr)
  | logical (op : LogicalOp) (line : Nat) (left right : Expr)
  | grouping (inner : Expr)
  | name (ref : Reference)
  | assign (ref : Reference) (value : Expr)
  | call (callee : Expr) (line : Nat) (arguments : List Expr)
  | get (object : Expr) (property : Name)
  | set (object : Expr) (property : Name) (value : Expr)
  /-- The object a method was called on, `this`. -/
  | receiver (id : NodeId) (line : Nat)
  /-- A method of the superclass, `super.method`. -/
  | inherited (id : NodeId) (line : Nat) (method : Name)
  deriving Inhabited

mutual

/-- A statement. -/
inductive Stmt where
  | expression (e : Expr)
  | print (e : Expr)
  | var (name : Name) (initial : Option Expr)
  | block (body : List Stmt)
  | ifThen (condition : Expr) (thenBranch : Stmt)
  | ifElse (condition : Expr) (thenBranch elseBranch : Stmt)
  | loop (condition : Expr) (body : Stmt)
  | function (declaration : FunctionDecl)
  /-- A `return`, with the line of the keyword. -/
  | giveBack (line : Nat) (value : Option Expr)
  | classDef (name : Name) (superclass : Option Reference) (methods : List FunctionDecl)

/-- The declaration of a function or a method. -/
structure FunctionDecl where
  name : Name
  parameters : List Name
  body : List Stmt

end

instance : Inhabited Stmt := ⟨.block []⟩

/-- The keyword that stands for the object a method was called on. -/
def receiverWord : String := "this"

/-- The keyword under which methods know their superclass. -/
def superclassWord : String := "super"

/-- The name of the method that is called on every new object. -/
def initializerName : String := "init"

namespace UnaryOp

/-- How an operator is written. -/
def spelling : UnaryOp → String
  | negate => "-"
  | not => "!"

end UnaryOp

namespace BinaryOp

/-- How an operator is written. -/
def spelling : BinaryOp → String
  | add => "+"
  | subtract => "-"
  | multiply => "*"
  | divide => "/"
  | equal => "=="
  | notEqual => "!="
  | less => "<"
  | lessEqual => "<="
  | greater => ">"
  | greaterEqual => ">="

end BinaryOp

namespace LogicalOp

/-- How an operator is written. -/
def spelling : LogicalOp → String
  | and => "and"
  | or => "or"

end LogicalOp

end ScopedScript
