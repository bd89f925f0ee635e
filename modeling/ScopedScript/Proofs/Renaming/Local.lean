import ScopedScript.Scope.Resolution

/-!
# Renaming a local variable

One declaration of a local variable or a parameter is renamed together with the references that mean
it: those of its old name whose distance leads to the scope of the declaration. Other declarations
of the old name, and references to them, stay as they are.
-/

namespace ScopedScript

/-- The renaming of a variable of a program whose references have known distances. -/
structure Renaming where
  distances : Distances
  old : String
  new : String

namespace Renaming

variable (ρ : Renaming)

/-- A name, under the new name if it is the old one. -/
def name (name : Name) : Name :=
  if name.text = ρ.old then { name with text := ρ.new } else name

/-- A reference, under the new name if it means the variable, whose scope lies at a distance. -/
def reference (depth : Nat) (ref : Reference) : Reference :=
  if ρ.distances[ref.id]? = some depth then { ref with name := ρ.name ref.name } else ref

end Renaming

mutual

/-- An expression with each reference to a variable replaced by another one. -/
def Expr.mapReferences (f : Reference → Reference) : Expr → Expr
  | .literal value => .literal value
  | .unary op line operand => .unary op line (operand.mapReferences f)
  | .binary op line left right =>
    .binary op line (left.mapReferences f) (right.mapReferences f)
  | .logical op line left right =>
    .logical op line (left.mapReferences f) (right.mapReferences f)
  | .grouping inner => .grouping (inner.mapReferences f)
  | .name ref => .name (f ref)
  | .assign ref value => .assign (f ref) (value.mapReferences f)
  | .call callee line arguments =>
    .call (callee.mapReferences f) line (Expr.mapReferencesAll f arguments)
  | .get object property => .get (object.mapReferences f) property
  | .set object property value =>
    .set (object.mapReferences f) property (value.mapReferences f)
  | .receiver id line => .receiver id line
  | .inherited id line method => .inherited id line method

/-- Expressions with each reference to a variable replaced by another one. -/
def Expr.mapReferencesAll (f : Reference → Reference) : List Expr → List Expr
  | [] => []
  | e :: es => e.mapReferences f :: Expr.mapReferencesAll f es

end

/-- An expression that may be left out, with each reference to a variable replaced by another
one. -/
def Expr.mapReferencesOption (f : Reference → Reference) : Option Expr → Option Expr
  | none => none
  | some e => some (e.mapReferences f)

mutual

/-- A statement in which a variable is renamed whose scope lies at a distance: it is declared by the
statement itself if the distance is zero. -/
def Stmt.renamed (ρ : Renaming) (depth : Nat) : Stmt → Stmt
  | .expression e => .expression (e.mapReferences (ρ.reference depth))
  | .print e => .print (e.mapReferences (ρ.reference depth))
  | .var name initial =>
    .var (if depth = 0 then ρ.name name else name)
      (Expr.mapReferencesOption (ρ.reference depth) initial)
  | .block body => .block (Stmt.renamedAll ρ (depth + 1) body)
  | .ifThen condition thenBranch =>
    .ifThen (condition.mapReferences (ρ.reference depth)) (thenBranch.renamed ρ depth)
  | .ifElse condition thenBranch elseBranch =>
    .ifElse (condition.mapReferences (ρ.reference depth)) (thenBranch.renamed ρ depth)
      (elseBranch.renamed ρ depth)
  | .loop condition body =>
    .loop (condition.mapReferences (ρ.reference depth)) (body.renamed ρ depth)
  | .function d => .function (FunctionDecl.renamed ρ (depth + 1) d)
  | .giveBack line value =>
    .giveBack line (Expr.mapReferencesOption (ρ.reference depth) value)
  | .classDef name none methods =>
    .classDef name none (FunctionDecl.renamedAll ρ (depth + 2) methods)
  | .classDef name (some ref) methods =>
    .classDef name (some (ρ.reference depth ref)) (FunctionDecl.renamedAll ρ (depth + 3) methods)

/-- Statements in which a variable is renamed whose scope lies at a distance. -/
def Stmt.renamedAll (ρ : Renaming) (depth : Nat) : List Stmt → List Stmt
  | [] => []
  | s :: ss => s.renamed ρ depth :: Stmt.renamedAll ρ depth ss

/-- A function in which a variable is renamed whose scope lies at a distance from that of the body:
it is a parameter or declared at the top level of the body if the distance is zero. -/
def FunctionDecl.renamed (ρ : Renaming) (depth : Nat) : FunctionDecl → FunctionDecl
  | ⟨name, parameters, body⟩ =>
    ⟨name, if depth = 0 then parameters.map ρ.name else parameters, Stmt.renamedAll ρ depth body⟩

/-- Functions in which a variable is renamed whose scope lies at a distance from those of the
bodies. -/
def FunctionDecl.renamedAll (ρ : Renaming) (depth : Nat) : List FunctionDecl → List FunctionDecl
  | [] => []
  | d :: ds => FunctionDecl.renamed ρ depth d :: FunctionDecl.renamedAll ρ depth ds

end

/-- Some statements declare a variable of a given name, not counting what is nested in them. -/
def DeclaresVar (x : String) (ss : List Stmt) : Prop :=
  ∃ line initial, .var ⟨x, line⟩ initial ∈ ss

mutual

/-- One local declaration of a statement is renamed. -/
inductive Stmt.RenamesTo (ρ : Renaming) : Stmt → Stmt → Prop where
  | here {body} : DeclaresVar ρ.old body →
      Stmt.RenamesTo ρ (.block body) (.block (Stmt.renamedAll ρ 0 body))
  | block {body body'} : Stmt.RenamesToAll ρ body body' →
      Stmt.RenamesTo ρ (.block body) (.block body')
  | ifThen {condition s s'} : Stmt.RenamesTo ρ s s' →
      Stmt.RenamesTo ρ (.ifThen condition s) (.ifThen condition s')
  | thenBranch {condition s s' elseBranch} : Stmt.RenamesTo ρ s s' →
      Stmt.RenamesTo ρ (.ifElse condition s elseBranch) (.ifElse condition s' elseBranch)
  | elseBranch {condition thenBranch s s'} : Stmt.RenamesTo ρ s s' →
      Stmt.RenamesTo ρ (.ifElse condition thenBranch s) (.ifElse condition thenBranch s')
  | loop {condition s s'} : Stmt.RenamesTo ρ s s' →
      Stmt.RenamesTo ρ (.loop condition s) (.loop condition s')
  | function {d d'} : FunctionDecl.RenamesTo ρ d d' →
      Stmt.RenamesTo ρ (.function d) (.function d')
  | classDef {name superclass ds ds'} : FunctionDecl.RenamesToAll ρ ds ds' →
      Stmt.RenamesTo ρ (.classDef name superclass ds) (.classDef name superclass ds')

/-- One local declaration of some statements is renamed. -/
inductive Stmt.RenamesToAll (ρ : Renaming) : List Stmt → List Stmt → Prop where
  | first {s s' ss} : Stmt.RenamesTo ρ s s' → Stmt.RenamesToAll ρ (s :: ss) (s' :: ss)
  | later {s ss ss'} : Stmt.RenamesToAll ρ ss ss' → Stmt.RenamesToAll ρ (s :: ss) (s :: ss')

/-- A parameter or one local declaration of the body of a function is renamed. -/
inductive FunctionDecl.RenamesTo (ρ : Renaming) : FunctionDecl → FunctionDecl → Prop where
  | parameter {d} : (∃ p ∈ d.parameters, p.text = ρ.old) →
      FunctionDecl.RenamesTo ρ d (FunctionDecl.renamed ρ 0 d)
  | here {d} : DeclaresVar ρ.old d.body → FunctionDecl.RenamesTo ρ d (FunctionDecl.renamed ρ 0 d)
  | body {name parameters body body'} : Stmt.RenamesToAll ρ body body' →
      FunctionDecl.RenamesTo ρ ⟨name, parameters, body⟩ ⟨name, parameters, body'⟩

/-- A parameter or one local declaration of some functions is renamed. -/
inductive FunctionDecl.RenamesToAll (ρ : Renaming) :
    List FunctionDecl → List FunctionDecl → Prop where
  | first {d d' ds} : FunctionDecl.RenamesTo ρ d d' →
      FunctionDecl.RenamesToAll ρ (d :: ds) (d' :: ds)
  | later {d ds ds'} : FunctionDecl.RenamesToAll ρ ds ds' →
      FunctionDecl.RenamesToAll ρ (d :: ds) (d :: ds')

end

mutual

/-- The names that occur in an expression. -/
def Expr.names : Expr → List String
  | .literal _ | .receiver _ _ => []
  | .unary _ _ operand => operand.names
  | .binary _ _ left right => left.names ++ right.names
  | .logical _ _ left right => left.names ++ right.names
  | .grouping inner => inner.names
  | .name ref => [ref.name.text]
  | .assign ref value => ref.name.text :: value.names
  | .call callee _ arguments => callee.names ++ Expr.namesAll arguments
  | .get object property => property.text :: object.names
  | .set object property value => property.text :: (object.names ++ value.names)
  | .inherited _ _ method => [method.text]

/-- The names that occur in expressions. -/
def Expr.namesAll : List Expr → List String
  | [] => []
  | e :: es => e.names ++ Expr.namesAll es

end

/-- The names that occur in an expression that may be left out. -/
def Expr.namesOption : Option Expr → List String
  | none => []
  | some e => e.names

mutual

/-- The names that occur in a statement. -/
def Stmt.names : Stmt → List String
  | .expression e => e.names
  | .print e => e.names
  | .var name initial => name.text :: Expr.namesOption initial
  | .block body => Stmt.namesAll body
  | .ifThen condition thenBranch => condition.names ++ thenBranch.names
  | .ifElse condition thenBranch elseBranch =>
    condition.names ++ (thenBranch.names ++ elseBranch.names)
  | .loop condition body => condition.names ++ body.names
  | .function d => FunctionDecl.names d
  | .giveBack _ value => Expr.namesOption value
  | .classDef name none methods => name.text :: FunctionDecl.namesAll methods
  | .classDef name (some ref) methods =>
    name.text :: ref.name.text :: FunctionDecl.namesAll methods

/-- The names that occur in statements. -/
def Stmt.namesAll : List Stmt → List String
  | [] => []
  | s :: ss => s.names ++ Stmt.namesAll ss

/-- The names that occur in the declaration of a function. -/
def FunctionDecl.names : FunctionDecl → List String
  | ⟨name, parameters, body⟩ => name.text :: (parameters.map Name.text ++ Stmt.namesAll body)

/-- The names that occur in the declarations of functions. -/
def FunctionDecl.namesAll : List FunctionDecl → List String
  | [] => []
  | d :: ds => FunctionDecl.names d ++ FunctionDecl.namesAll ds

end

end ScopedScript
