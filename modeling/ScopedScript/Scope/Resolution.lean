import Std.Data.TreeMap
import ScopedScript.Scope.Fault

/-!
# Where names are declared

For every reference of a program that means a local variable, its distance is worked out: how many
scopes lie between the reference and the scope that declares the name. A reference that no enclosing
scope declares means a global variable and has no distance. Programs that break a rule of scoping
are refused, with the first place that breaks one.

A block is a scope; so are the parameters of a function together with the top level of its body.
The methods of a class are enclosed by a scope that declares `this`, and, if the class has a
superclass, by another one outside it that declares `super`. The top level of a program is no scope:
what it declares is global, and may be declared again.
-/

namespace ScopedScript

/-- The distances of the references that mean local variables. -/
abbrev Distances := Std.TreeMap NodeId Nat

/-- The names that a scope declares so far, each with whether its declaration is complete. -/
abbrev Scope := List (String × Bool)

namespace Scope

/-- Whether a scope declares a name. -/
def declares (scope : Scope) (name : String) : Bool := (scope.lookup name).isSome

end Scope

/-- The sort of function body that encloses a place. -/
inductive BodyKind where
  | topLevel | function | initializer | method
  deriving DecidableEq, Repr

/-- The sort of class that encloses a place. -/
inductive ClassKind where
  | outside | plain | subclass
  deriving DecidableEq, Repr

/-- What encloses a place, as far as `return`, `this` and `super` depend on it. -/
structure Setting where
  body : BodyKind
  classKind : ClassKind

/-- The scopes that enclose a place, innermost first, and the distances found so far. -/
structure Resolution where
  scopes : List Scope
  distances : Distances

/-- A computation that finds distances. -/
abbrev Resolve := StateT Resolution (Except ScopeError)

namespace Resolve

/-- Stop, blaming a word. -/
def refuse {α : Type} (fault : ScopeFault) (blamed : Name) : Resolve α :=
  throw ⟨fault, blamed⟩

/-- Change the innermost scope, if there is one. -/
def onInnermost (f : Scope → Scope) : Resolve Unit :=
  modify fun r => match r.scopes with
    | [] => r
    | scope :: outer => { r with scopes := f scope :: outer }

/-- Go on in a new scope that declares the given names. -/
def enter (names : List String) : Resolve Unit :=
  modify fun r => { r with scopes := names.map (·, true) :: r.scopes }

/-- Leave the innermost scope. -/
def leave : Resolve Unit := modify fun r => { r with scopes := r.scopes.tail }

/-- Begin the declaration of a name in the innermost scope, which must not declare it yet. -/
def declare (name : Name) : Resolve Unit := do
  let r ← get
  match r.scopes with
  | [] => return
  | scope :: _ =>
    if scope.declares name.text then refuse .redeclared name
    else onInnermost fun scope => (name.text, false) :: scope

/-- Complete the declaration of a name in the innermost scope. -/
def define (name : Name) : Resolve Unit :=
  onInnermost fun scope => (name.text, true) :: scope

/-- Declare a name at once. -/
def introduce (name : Name) : Resolve Unit := do
  declare name
  define name

/-- Declare names at once, one after the other. -/
def introduceAll : List Name → Resolve Unit
  | [] => return
  | name :: names => do
    introduce name
    introduceAll names

/-- Find the distance of a reference to a name. -/
def locate (id : NodeId) (name : String) : Resolve Unit :=
  modify fun r => match r.scopes.findIdx? (·.declares name) with
    | some distance => { r with distances := r.distances.insert id distance }
    | none => r

/-- Find the distance of a name that is read. A variable is not read before its declaration is
complete. -/
def read (ref : Reference) : Resolve Unit := do
  let r ← get
  match r.scopes with
  | scope :: _ =>
    if scope.lookup ref.name.text = some false then refuse .readInOwnInitializer ref.name
  | [] => pure ()
  locate ref.id ref.name.text

mutual

/-- Find the distances of the references of an expression. -/
def expr (setting : Setting) : Expr → Resolve Unit
  | .literal _ => return
  | .unary _ _ operand => expr setting operand
  | .binary _ _ left right => do
    expr setting left
    expr setting right
  | .logical _ _ left right => do
    expr setting left
    expr setting right
  | .grouping inner => expr setting inner
  | .name ref => read ref
  | .assign ref value => do
    expr setting value
    locate ref.id ref.name.text
  | .call callee _ arguments => do
    expr setting callee
    exprs setting arguments
  | .get object _ => expr setting object
  | .set object _ value => do
    expr setting value
    expr setting object
  | .receiver id line =>
    match setting.classKind with
    | .outside => refuse .receiverOutsideClass ⟨receiverWord, line⟩
    | .plain | .subclass => locate id receiverWord
  | .inherited id line _ =>
    match setting.classKind with
    | .outside => refuse .superOutsideClass ⟨superclassWord, line⟩
    | .plain => refuse .superWithoutSuperclass ⟨superclassWord, line⟩
    | .subclass => locate id superclassWord

/-- Find the distances of the references of expressions. -/
def exprs (setting : Setting) : List Expr → Resolve Unit
  | [] => return
  | e :: es => do
    expr setting e
    exprs setting es

end

/-- Find the distances of the references of an expression that may be left out. -/
def exprOption (setting : Setting) : Option Expr → Resolve Unit
  | none => return
  | some e => expr setting e

/-- Find the distance of the superclass of a class, which must not be the class itself. -/
def superclass (className : Name) (ref : Reference) : Resolve Unit := do
  if ref.name.text = className.text then refuse .inheritsFromItself ref.name
  read ref

/-- The sort of body that a method has. -/
def methodKind (name : Name) : BodyKind :=
  if name.text = initializerName then .initializer else .method

mutual

/-- Find the distances of the references of a statement. -/
def stmt (setting : Setting) : Stmt → Resolve Unit
  | .expression e => expr setting e
  | .print e => expr setting e
  | .var name initial => do
    declare name
    exprOption setting initial
    define name
  | .block body => do
    enter []
    stmts setting body
    leave
  | .ifThen condition thenBranch => do
    expr setting condition
    stmt setting thenBranch
  | .ifElse condition thenBranch elseBranch => do
    expr setting condition
    stmt setting thenBranch
    stmt setting elseBranch
  | .loop condition body => do
    expr setting condition
    stmt setting body
  | .function declaration => do
    introduce declaration.name
    function { setting with body := .function } declaration
  | .giveBack line value =>
    match setting.body, value with
    | .topLevel, _ => refuse .returnOutsideFunction ⟨"return", line⟩
    | .initializer, some _ => refuse .valueFromInitializer ⟨"return", line⟩
    | _, value => exprOption setting value
  | .classDef name none classMethods => do
    introduce name
    enter [receiverWord]
    methods { setting with classKind := .plain } classMethods
    leave
  | .classDef name (some ref) classMethods => do
    introduce name
    superclass name ref
    enter [superclassWord]
    enter [receiverWord]
    methods { setting with classKind := .subclass } classMethods
    leave
    leave

/-- Find the distances of the references of statements. -/
def stmts (setting : Setting) : List Stmt → Resolve Unit
  | [] => return
  | s :: ss => do
    stmt setting s
    stmts setting ss

/-- Find the distances of the references of the body of a function, whose parameters are declared
in the scope of the body. -/
def function (setting : Setting) : FunctionDecl → Resolve Unit
  | ⟨_, parameters, body⟩ => do
    enter []
    introduceAll parameters
    stmts setting body
    leave

/-- Find the distances of the references of the bodies of methods. -/
def methods (setting : Setting) : List FunctionDecl → Resolve Unit
  | [] => return
  | d :: ds => do
    function { setting with body := methodKind d.name } d
    methods setting ds

end

end Resolve

/-- The distances of the references of a program. -/
def resolve (program : List Stmt) : Except ScopeError Distances :=
  (Resolve.stmts ⟨.topLevel, .outside⟩ program ⟨[], ∅⟩).map fun (_, r) => r.distances

end ScopedScript
