import ScopedScript.Decimal.Layout
import ScopedScript.Store.Bindings
import ScopedScript.Syntax.Basic

/-!
# Values

Numbers, strings, truth values and `nil` are what they show. Functions, classes, natives and
objects have an identity: each is equal to itself alone. What can change in the course of a run,
namely what scopes bind and what fields objects have, is not part of a value but lies in the store.
-/

namespace ScopedScript

/-- The number of a scope in the store. -/
abbrev EnvId := Nat

/-- The number of an object in the store. -/
abbrev ObjectId := Nat

/-- A number by which one function, class or native is told from any other. -/
abbrev Identity := Nat

/-- A declared function or method, with the scope it was declared in. -/
structure Function where
  id : Identity
  declaration : FunctionDecl
  closure : EnvId
  isInitializer : Bool

namespace Function

/-- The name of a function. -/
def name (f : Function) : String := f.declaration.name.text

/-- The number of arguments a function takes. -/
def arity (f : Function) : Nat := f.declaration.parameters.length

end Function

/-- What one class declaration contributes to a class. -/
structure ClassLayer where
  id : Identity
  name : String
  methods : Bindings Function

/-- A class: its own declaration, and those it inherits from, the nearest first. -/
structure Class where
  own : ClassLayer
  inherited : List ClassLayer

namespace Class

/-- The name of a class. -/
def name (c : Class) : String := c.own.name

/-- The names of the classes that a class inherits from, the nearest first. -/
def inheritedNames (c : Class) : List String := c.inherited.map ClassLayer.name

/-- The class that a declaration makes, given its superclass. -/
def extending (own : ClassLayer) : Option Class → Class
  | none => ⟨own, []⟩
  | some c => ⟨own, c.own :: c.inherited⟩

/-- The method of a class that has a given name: its own, or else the nearest inherited one. -/
def findMethod? (c : Class) (name : String) : Option Function :=
  (c.own :: c.inherited).findSome? fun layer => layer.methods.get? name

/-- A method of a class is its own or else that of its superclass. -/
theorem findMethod?_extending {own : ClassLayer} {parent : Option Class} {x : String} :
    (extending own parent).findMethod? x =
      (own.methods.get? x).or (parent.bind fun c => c.findMethod? x) := by
  cases parent with
  | none =>
      simp only [extending, findMethod?, List.findSome?_cons, List.findSome?_nil]
      cases own.methods.get? x <;> rfl
  | some c =>
      simp only [extending, findMethod?, List.findSome?_cons (a := own)]
      cases own.methods.get? x <;> rfl

/-- The number of arguments it takes to make an object of a class. -/
def arity (c : Class) : Nat := ((c.findMethod? initializerName).map Function.arity).getD 0

end Class

/-- A function that is not declared in a program but provided by its host. -/
structure Native where
  id : Identity
  name : String
  arity : Nat
  deriving DecidableEq, Repr

/-- An object, and the class it was made from. -/
structure Object where
  id : ObjectId
  cls : Class

/-- A value. -/
inductive Value where
  | nil
  | bool (value : Bool)
  | number (value : Float)
  | string (text : String)
  | function (f : Function)
  | cls (c : Class)
  | native (f : Native)
  | object (o : Object)
  deriving Inhabited

namespace Value

/-- Whether a value counts as true in a condition: all do but `nil` and `false`. -/
def isTruthy : Value → Bool
  | nil => false
  | bool value => value
  | _ => true

/-- Whether two values are equal. Values of different sorts never are. -/
def equal : Value → Value → Bool
  | nil, nil => true
  | bool a, bool b => a == b
  | number a, number b => a == b
  | string a, string b => a == b
  | function f, function g => f.id == g.id
  | cls c, cls d => c.own.id == d.own.id
  | native f, native g => f.id == g.id
  | object o, object p => o.id == p.id
  | _, _ => false

/-- The text of a value in a program's output. -/
def render : Value → String
  | nil => "nil"
  | bool true => "true"
  | bool false => "false"
  | number value => Decimal.plain value
  | string text => text
  | function f => "<fn " ++ f.name ++ ">"
  | cls c => "<class " ++ c.name ++ ">"
  | native f => "<native fn " ++ f.name ++ ">"
  | object o => o.cls.name ++ " instance"

end Value

/-- The value that a constant denotes. -/
def Literal.value : Literal → Value
  | .number value => .number value
  | .string text => .string text
  | .bool value => .bool value
  | .nil => .nil

end ScopedScript
