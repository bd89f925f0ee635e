import ScopedScript.Eval.Operators
import ScopedScript.Eval.State

/-!
# Running programs

Expressions are evaluated and statements executed by recursion on fuel, which every step spends, so
also loops and calls that never end are defined. Operands are evaluated from left to right, each
once. A `return` is no fault: it is one of the two ways in which a statement can end.
-/

namespace ScopedScript

/-- How a statement ends. -/
inductive Flow where
  | normal
  /-- A `return` on `line` is on its way to the call of the function it stands in. -/
  | returning (value : Value) (line : Nat)

namespace Eval

/-- A method as a property of an object: a new function, whose scope binds `this`. -/
def bindMethod (method : Function) (o : Object) : Eval Function := do
  let scope ← newEnv method.closure
  onStore fun store => store.define scope receiverWord (.object o)
  let id ← freshIdentity
  return { method with id := id, closure := scope }

/-- The value of a property of an object: a field, or else a method of its class. -/
def property (o : Object) (name : Name) : Eval Value := do
  let s ← Run.get
  match s.store.field? o.id name.text with
  | some value => return value
  | none =>
    match o.cls.findMethod? name.text with
    | some method => return .function (← bindMethod method o)
    | none => fail (.undefinedProperty name.text) name.line

/-- The method that `super.method` means: that of the superclass of the class that declares the
method under way, for the same object. The scope that binds `this` lies just inside the one that
binds `super`. -/
def inheritedMethod (id : NodeId) (line : Nat) (method : Name) : Eval Value := do
  let s ← Run.get
  match s.distances[id]? with
  | none => fail (.unboundLocal superclassWord) line
  | some distance =>
    let .cls superclass ← readAt s.current distance ⟨superclassWord, line⟩
      | fail .superclassNotClass line
    let inner + 1 := distance
      | fail (.scopeMismatch distance receiverWord) line
    let .object o ← readAt s.current inner ⟨receiverWord, line⟩
      | fail .notAnInstance line
    match superclass.findMethod? method.text with
    | some found => return .function (← bindMethod found o)
    | none => fail (.undefinedProperty method.text) method.line

/-- The functions that declarations make in a scope, by name. The last one of a name counts. -/
def makeMethods (closure : EnvId) : List FunctionDecl → Eval (Bindings Function)
  | declarations => go .empty declarations
where
  /-- Add the functions that declarations make to others. -/
  go (made : Bindings Function) : List FunctionDecl → Eval (Bindings Function)
    | [] => return made
    | d :: ds => do
      let id ← freshIdentity
      let isInitializer := d.name.text == initializerName
      go (made.insert d.name.text ⟨id, d, closure, isInitializer⟩) ds

/-- The class that a reference to a superclass means. -/
def superclass (ref : Reference) : Eval Class := do
  match ← read ref.id ref.name with
  | .cls c => return c
  | _ => fail .superclassNotClass ref.name.line

/-- The scope in which the methods of a class are declared: with a superclass, a new one that
binds `super`. -/
def methodScope (parent : Option Class) : Eval EnvId := do
  let scope ← Run.gets State.current
  match parent with
  | none => return scope
  | some c =>
    let inner ← newEnv scope
    onStore fun store => store.define inner superclassWord (.cls c)
    return inner

/-- Declare a class. Its name is bound while its methods are made, though not yet to the class. -/
def declareClass (name : Name) (ref : Option Reference) (declarations : List FunctionDecl) :
    Eval Unit := do
  let parent ← match ref with
    | none => pure none
    | some ref => some <$> superclass ref
  define name.text .nil
  let closure ← methodScope parent
  let methods ← makeMethods closure declarations
  let id ← freshIdentity
  define name.text (.cls (.extending ⟨id, name.text, methods⟩ parent))

/-- Check that a call has as many arguments as it needs. -/
def checkArity (expected got line : Nat) : Eval Unit :=
  if got = expected then pure () else fail (.arityMismatch expected got) line

/-- The answer of a native. -/
def askHost (f : Native) (arguments : List Value) (line : Nat) : Eval Value := do
  let s ← Run.get
  Run.modify fun s => { s with nativeCalls := s.nativeCalls + 1 }
  match s.host.answer f s.nativeCalls arguments with
  | .ok value => return value
  | .error message => fail (.native f.name message) line

/-- The value of an operation on values, whose fault lies on `line`. -/
def ofOperation (result : Except RuntimeFault Value) (line : Nat) : Eval Value :=
  match result with
  | .ok value => pure value
  | .error fault => fail fault line

mutual

/-- The value of an expression. -/
def eval : Nat → Expr → Eval Value
  | 0, _ => Run.outOfFuel
  | fuel + 1, e =>
    match e with
    | .literal value => pure value.value
    | .grouping inner => eval fuel inner
    | .unary op line operand => do
      let v ← eval fuel operand
      ofOperation (op.apply v) line
    | .binary op line left right => do
      let v ← eval fuel left
      let w ← eval fuel right
      ofOperation (op.apply v w) line
    | .logical op _ left right => do
      let v ← eval fuel left
      if op.decides v then return v
      eval fuel right
    | .name ref => read ref.id ref.name
    | .assign ref value => do
      let v ← eval fuel value
      assign ref v
      return v
    | .call callee line arguments => do
      let f ← eval fuel callee
      let values ← evalAll fuel arguments
      call fuel f values line
    | .get object name => do
      match ← eval fuel object with
      | .object o => property o name
      | _ => fail .notAnInstance name.line
    | .set object name value => do
      match ← eval fuel object with
      | .object o => do
        let v ← eval fuel value
        onStore fun store => store.setField o.id name.text v
        return v
      | _ => fail .fieldOnNonInstance name.line
    | .receiver id line => read id ⟨receiverWord, line⟩
    | .inherited id line method => inheritedMethod id line method

/-- The values of expressions. -/
def evalAll : Nat → List Expr → Eval (List Value)
  | 0, _ => Run.outOfFuel
  | _ + 1, [] => pure []
  | fuel + 1, e :: es => do
    let v ← eval fuel e
    let vs ← evalAll fuel es
    return v :: vs

/-- The value of a call. -/
def call : Nat → Value → List Value → Nat → Eval Value
  | 0, _, _, _ => Run.outOfFuel
  | fuel + 1, callee, arguments, line =>
    match callee with
    | .function f => do
      checkArity f.arity arguments.length line
      invoke fuel f arguments
    | .cls c => do
      checkArity c.arity arguments.length line
      let o ← newObject c
      match c.findMethod? initializerName with
      | some method => do
        let f ← bindMethod method o
        let _ ← invoke fuel f arguments
        return .object o
      | none => return .object o
    | .native f => do
      checkArity f.arity arguments.length line
      askHost f arguments line
    | _ => fail .notCallable line

/-- The value of a call of a declared function. An initializer gives the object it is bound to. -/
def invoke : Nat → Function → List Value → Eval Value
  | 0, _, _ => Run.outOfFuel
  | fuel + 1, f, arguments => do
    let scope ← newEnv f.closure
    onStore fun store =>
      store.defineAll scope (f.declaration.parameters.map Name.text) arguments
    let flow ← within scope (execAll fuel f.declaration.body)
    if f.isInitializer then
      readAt f.closure 0 ⟨receiverWord, f.declaration.name.line⟩
    else match flow with
      | .returning value _ => return value
      | .normal => return .nil

/-- Execute a statement. -/
def exec : Nat → Stmt → Eval Flow
  | 0, _ => Run.outOfFuel
  | fuel + 1, s =>
    match s with
    | .expression e => do
      let v ← eval fuel e
      Run.modify fun s => { s with lastValue := v }
      return .normal
    | .print e => do
      let v ← eval fuel e
      emit v.render
      return .normal
    | .var name initial => do
      let v ← match initial with
        | some e => eval fuel e
        | none => pure .nil
      define name.text v
      return .normal
    | .block body => do
      let outer ← Run.gets State.current
      let scope ← newEnv outer
      within scope (execAll fuel body)
    | .ifThen condition thenBranch => do
      let v ← eval fuel condition
      if v.isTruthy then exec fuel thenBranch else return .normal
    | .ifElse condition thenBranch elseBranch => do
      let v ← eval fuel condition
      if v.isTruthy then exec fuel thenBranch else exec fuel elseBranch
    | .loop condition body => do
      let v ← eval fuel condition
      if v.isTruthy then
        match ← exec fuel body with
        | .normal => exec fuel (.loop condition body)
        | flow => return flow
      else return .normal
    | .function d => do
      let id ← freshIdentity
      let closure ← Run.gets State.current
      define d.name.text (.function ⟨id, d, closure, false⟩)
      return .normal
    | .giveBack line value => do
      let v ← match value with
        | some e => eval fuel e
        | none => pure .nil
      return .returning v line
    | .classDef name superclass declarations => do
      declareClass name superclass declarations
      return .normal

/-- Execute statements one after the other, up to a `return`. -/
def execAll : Nat → List Stmt → Eval Flow
  | 0, _ => Run.outOfFuel
  | _ + 1, [] => pure .normal
  | fuel + 1, s :: ss => do
    match ← exec fuel s with
    | .normal => execAll fuel ss
    | flow => return flow

end

/-- Execute the body of a block in a scope. -/
def execBlock (fuel : Nat) (body : List Stmt) (scope : EnvId) : Eval Flow :=
  within scope (execAll fuel body)

/-- Print the value of an expression statement, if values are to be printed. -/
def echo (s : Stmt) : Eval Unit := do
  let state ← Run.get
  match s with
  | .expression _ => if state.echo then emit state.lastValue.render
  | _ => return

/-- Run the statements of a program. -/
def runProgram (fuel : Nat) : List Stmt → Eval Unit
  | [] => return
  | s :: ss => do
    match ← exec fuel s with
    | .returning _ line => fail .topLevelReturn line
    | .normal =>
      echo s
      runProgram fuel ss

end Eval

end ScopedScript
