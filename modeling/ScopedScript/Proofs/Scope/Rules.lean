import ScopedScript.Scope.Resolution

/-!
# The rules of scoping

What is said of a program by finding the distances of its references, without the order in which
they are found: which scopes enclose a place, which rules a tree obeys in given scopes, and which
distances its references have there.
-/

namespace ScopedScript

/-- The scopes that enclose a place, innermost first. -/
abbrev Scopes := List Scope

/-- The number of a reference, and its distance if it means a local variable. -/
abbrev Record := NodeId × Option Nat

namespace Scopes

/-- Change the innermost scope, if there is one. -/
def onInnermost (f : Scope → Scope) : Scopes → Scopes
  | [] => []
  | scope :: outer => f scope :: outer

/-- The scopes in which the declaration of a name has begun. -/
def declaring (Γ : Scopes) (x : String) : Scopes := Γ.onInnermost fun scope => (x, false) :: scope

/-- The scopes in which the declaration of a name is complete. -/
def defining (Γ : Scopes) (x : String) : Scopes := Γ.onInnermost fun scope => (x, true) :: scope

/-- The scopes after a declaration. -/
def introducing (Γ : Scopes) (x : String) : Scopes := (Γ.declaring x).defining x

/-- The scopes after declarations one after the other. -/
def introducingAll : Scopes → List Name → Scopes
  | Γ, [] => Γ
  | Γ, name :: names => introducingAll (Γ.introducing name.text) names

/-- The innermost scope, if there is one, does not declare a name yet. -/
def Fresh (x : String) : Scopes → Prop
  | [] => True
  | scope :: _ => scope.declares x = false

/-- Each of some names is declared in the innermost scope for the first time. -/
def FreshAll : Scopes → List Name → Prop
  | _, [] => True
  | Γ, name :: names => Γ.Fresh name.text ∧ FreshAll (Γ.introducing name.text) names

/-- The innermost scope, if there is one, is not in the course of declaring a name. -/
def Readable (x : String) : Scopes → Prop
  | [] => True
  | scope :: _ => scope.lookup x ≠ some false

/-- The distance of the nearest scope that declares a name. -/
def locate? (Γ : Scopes) (x : String) : Option Nat := Γ.findIdx? fun scope => scope.declares x

/-- What is found for a reference to a name. -/
def record (Γ : Scopes) (id : NodeId) (x : String) : Record := (id, Γ.locate? x)

/-- The scope of the methods of a class. -/
def receiverScope : Scope := [(receiverWord, true)]

/-- The scope outside that of the methods of a class with a superclass. -/
def superclassScope : Scope := [(superclassWord, true)]

end Scopes

mutual

/-- What is found for the references of an expression, in the order in which it is found. -/
def Expr.records (Γ : Scopes) : Expr → List Record
  | .literal _ => []
  | .unary _ _ operand => operand.records Γ
  | .binary _ _ left right => left.records Γ ++ right.records Γ
  | .logical _ _ left right => left.records Γ ++ right.records Γ
  | .grouping inner => inner.records Γ
  | .name ref => [Γ.record ref.id ref.name.text]
  | .assign ref value => value.records Γ ++ [Γ.record ref.id ref.name.text]
  | .call callee _ arguments => callee.records Γ ++ Expr.recordsAll Γ arguments
  | .get object _ => object.records Γ
  | .set object _ value => value.records Γ ++ object.records Γ
  | .receiver id _ => [Γ.record id receiverWord]
  | .inherited id _ _ => [Γ.record id superclassWord]

/-- What is found for the references of expressions. -/
def Expr.recordsAll (Γ : Scopes) : List Expr → List Record
  | [] => []
  | e :: es => e.records Γ ++ Expr.recordsAll Γ es

end

/-- What is found for the references of an expression that may be left out. -/
def Expr.recordsOption (Γ : Scopes) : Option Expr → List Record
  | none => []
  | some e => e.records Γ

mutual

/-- An expression obeys the rules of scoping. -/
def Expr.Obeys (setting : Setting) (Γ : Scopes) : Expr → Prop
  | .literal _ => True
  | .unary _ _ operand => operand.Obeys setting Γ
  | .binary _ _ left right => left.Obeys setting Γ ∧ right.Obeys setting Γ
  | .logical _ _ left right => left.Obeys setting Γ ∧ right.Obeys setting Γ
  | .grouping inner => inner.Obeys setting Γ
  | .name ref => Γ.Readable ref.name.text
  | .assign _ value => value.Obeys setting Γ
  | .call callee _ arguments => callee.Obeys setting Γ ∧ Expr.ObeysAll setting Γ arguments
  | .get object _ => object.Obeys setting Γ
  | .set object _ value => value.Obeys setting Γ ∧ object.Obeys setting Γ
  | .receiver _ _ => setting.classKind ≠ .outside
  | .inherited _ _ _ => setting.classKind = .subclass

/-- Expressions obey the rules of scoping. -/
def Expr.ObeysAll (setting : Setting) (Γ : Scopes) : List Expr → Prop
  | [] => True
  | e :: es => e.Obeys setting Γ ∧ Expr.ObeysAll setting Γ es

end

/-- An expression that may be left out obeys the rules of scoping. -/
def Expr.ObeysOption (setting : Setting) (Γ : Scopes) : Option Expr → Prop
  | none => True
  | some e => e.Obeys setting Γ

/-- The scopes after a statement. -/
def Stmt.after (Γ : Scopes) : Stmt → Scopes
  | .expression _ | .print _ | .block _ | .giveBack _ _ => Γ
  | .var name _ => Γ.introducing name.text
  | .ifThen _ thenBranch => thenBranch.after Γ
  | .ifElse _ thenBranch elseBranch => elseBranch.after (thenBranch.after Γ)
  | .loop _ body => body.after Γ
  | .function d => Γ.introducing d.name.text
  | .classDef name _ _ => Γ.introducing name.text

mutual

/-- What is found for the references of a statement, in the order in which it is found. -/
def Stmt.records (Γ : Scopes) : Stmt → List Record
  | .expression e => e.records Γ
  | .print e => e.records Γ
  | .var name initial => Expr.recordsOption (Γ.declaring name.text) initial
  | .block body => Stmt.recordsAll ([] :: Γ) body
  | .ifThen condition thenBranch => condition.records Γ ++ thenBranch.records Γ
  | .ifElse condition thenBranch elseBranch =>
    condition.records Γ ++ (thenBranch.records Γ ++ elseBranch.records (thenBranch.after Γ))
  | .loop condition body => condition.records Γ ++ body.records Γ
  | .function d => d.records (Γ.introducing d.name.text)
  | .giveBack _ value => Expr.recordsOption Γ value
  | .classDef name none methods =>
    FunctionDecl.recordsAll (Scopes.receiverScope :: Γ.introducing name.text) methods
  | .classDef name (some ref) methods =>
    (Γ.introducing name.text).record ref.id ref.name.text :: FunctionDecl.recordsAll
      (Scopes.receiverScope :: Scopes.superclassScope :: Γ.introducing name.text) methods

/-- What is found for the references of statements. -/
def Stmt.recordsAll (Γ : Scopes) : List Stmt → List Record
  | [] => []
  | s :: ss => s.records Γ ++ Stmt.recordsAll (s.after Γ) ss

/-- What is found for the references of the body of a function. -/
def FunctionDecl.records (Γ : Scopes) : FunctionDecl → List Record
  | ⟨_, parameters, body⟩ => Stmt.recordsAll (Scopes.introducingAll ([] :: Γ) parameters) body

/-- What is found for the references of the bodies of methods. -/
def FunctionDecl.recordsAll (Γ : Scopes) : List FunctionDecl → List Record
  | [] => []
  | d :: ds => d.records Γ ++ FunctionDecl.recordsAll Γ ds

end

mutual

/-- A statement obeys the rules of scoping. -/
def Stmt.Obeys (setting : Setting) (Γ : Scopes) : Stmt → Prop
  | .expression e => e.Obeys setting Γ
  | .print e => e.Obeys setting Γ
  | .var name initial =>
    Γ.Fresh name.text ∧ Expr.ObeysOption setting (Γ.declaring name.text) initial
  | .block body => Stmt.ObeysAll setting ([] :: Γ) body
  | .ifThen condition thenBranch => condition.Obeys setting Γ ∧ thenBranch.Obeys setting Γ
  | .ifElse condition thenBranch elseBranch =>
    condition.Obeys setting Γ ∧ thenBranch.Obeys setting Γ ∧
      elseBranch.Obeys setting (thenBranch.after Γ)
  | .loop condition body => condition.Obeys setting Γ ∧ body.Obeys setting Γ
  | .function d =>
    Γ.Fresh d.name.text ∧ d.Obeys { setting with body := .function } (Γ.introducing d.name.text)
  | .giveBack _ value =>
    setting.body ≠ .topLevel ∧ (setting.body = .initializer → value = none) ∧
      Expr.ObeysOption setting Γ value
  | .classDef name none methods =>
    Γ.Fresh name.text ∧ FunctionDecl.ObeysAll { setting with classKind := .plain }
      (Scopes.receiverScope :: Γ.introducing name.text) methods
  | .classDef name (some ref) methods =>
    Γ.Fresh name.text ∧ ref.name.text ≠ name.text ∧
      (Γ.introducing name.text).Readable ref.name.text ∧
      FunctionDecl.ObeysAll { setting with classKind := .subclass }
        (Scopes.receiverScope :: Scopes.superclassScope :: Γ.introducing name.text) methods

/-- Statements obey the rules of scoping. -/
def Stmt.ObeysAll (setting : Setting) (Γ : Scopes) : List Stmt → Prop
  | [] => True
  | s :: ss => s.Obeys setting Γ ∧ Stmt.ObeysAll setting (s.after Γ) ss

/-- The body of a function obeys the rules of scoping. -/
def FunctionDecl.Obeys (setting : Setting) (Γ : Scopes) : FunctionDecl → Prop
  | ⟨_, parameters, body⟩ =>
    Scopes.FreshAll ([] :: Γ) parameters ∧
      Stmt.ObeysAll setting (Scopes.introducingAll ([] :: Γ) parameters) body

/-- The bodies of methods obey the rules of scoping. -/
def FunctionDecl.ObeysAll (setting : Setting) (Γ : Scopes) : List FunctionDecl → Prop
  | [] => True
  | d :: ds =>
    d.Obeys { setting with body := Resolve.methodKind d.name } Γ ∧
      FunctionDecl.ObeysAll setting Γ ds

end

/-- The scopes after statements. -/
def Stmt.afterAll : Scopes → List Stmt → Scopes
  | Γ, [] => Γ
  | Γ, s :: ss => afterAll (s.after Γ) ss

namespace Scopes

@[simp] theorem tail_onInnermost (Γ : Scopes) (f : Scope → Scope) :
    (Γ.onInnermost f).tail = Γ.tail := by
  cases Γ <;> rfl

@[simp] theorem tail_introducing (Γ : Scopes) (x : String) : (Γ.introducing x).tail = Γ.tail := by
  simp [introducing, declaring, defining]

@[simp] theorem tail_introducingAll (Γ : Scopes) (names : List Name) :
    (Γ.introducingAll names).tail = Γ.tail := by
  induction names generalizing Γ with
  | nil => rfl
  | cons name names ih => exact (ih _).trans (tail_introducing Γ _)

end Scopes

/-- A statement declares at most in the innermost scope. -/
@[simp] theorem Stmt.tail_after (s : Stmt) (Γ : Scopes) : (s.after Γ).tail = Γ.tail := by
  cases s with
  | expression _ | print _ | block _ | giveBack _ _ => rfl
  | var name _ | function _ | classDef name _ _ => exact Scopes.tail_introducing _ _
  | ifThen _ thenBranch => exact thenBranch.tail_after Γ
  | ifElse _ thenBranch elseBranch =>
      exact (elseBranch.tail_after _).trans (thenBranch.tail_after Γ)
  | loop _ body => exact body.tail_after Γ

/-- Nothing is declared in a scope at the top level of a program. -/
theorem Stmt.after_nil (s : Stmt) : s.after [] = [] := by
  cases s with
  | ifThen _ thenBranch => exact thenBranch.after_nil
  | ifElse _ thenBranch elseBranch =>
      unfold Stmt.after
      rw [thenBranch.after_nil, elseBranch.after_nil]
  | loop _ body => exact body.after_nil
  | _ => rfl

@[simp] theorem Stmt.tail_afterAll (ss : List Stmt) (Γ : Scopes) :
    (Stmt.afterAll Γ ss).tail = Γ.tail := by
  induction ss generalizing Γ with
  | nil => rfl
  | cons s ss ih => exact (ih _).trans (s.tail_after Γ)

end ScopedScript
