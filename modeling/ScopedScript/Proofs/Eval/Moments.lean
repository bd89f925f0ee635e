import ScopedScript.Proofs.Eval.Growth

/-!
# The moments of a run

A run is followed step by step, and what happens in it is put on record together with the state in
which it happens. The evaluation of an expression, the execution of a statement and a call are on
record from their beginning on, whether they end or not. What makes a scope, a function, a class or
an object is on record once it is made. So the record of a run says which method a scope belongs to,
which object a method was made for, and which class it comes from, at every point of the run.
-/

namespace ScopedScript

/-- A class declaration, and the state in which its execution is begun. -/
structure ClassDeclaration where
  state : State
  name : Name
  superclass : Option Reference
  methods : List FunctionDecl

/-- The declaration as a statement. -/
def ClassDeclaration.stmt (d : ClassDeclaration) : Stmt := .classDef d.name d.superclass d.methods

/-- What happens in the course of a run. -/
inductive Event where
  | evaluates (e : Expr)
  | executes (s : Stmt)
  | calls (callee : Value) (arguments : List Value) (line : Nat)
  /-- A block that is executed in the scope `outer` gets the scope `inner`. -/
  | opens (outer inner : EnvId)
  /-- A call of a declared function gets a scope, in which its parameters are bound. -/
  | enters (f : Function) (scope : EnvId)
  /-- A declaration that is not that of a method makes a function. -/
  | declares (f : Function)
  /-- A declaration makes a class, which inherits from another one or from none. -/
  | derives (declaration : ClassDeclaration) (parent : Option Class) (c : Class)
  /-- A call of a class makes an object. -/
  | creates (o : Object)
  /-- A method becomes a function for an object. -/
  | binds (method f : Function) (o : Object)

/-- Something that happens, and the state in which it happens. -/
structure Moment where
  event : Event
  state : State

/-- What happens in the course of a computation, given the state in which it is begun. -/
abbrev Moments := State → List Moment

namespace Moments

/-- Nothing happens. -/
def none : Moments := fun _ => []

/-- Something happens first. -/
def mark (event : Event) (rest : Moments) : Moments := fun s => ⟨event, s⟩ :: rest s

/-- What happens in a computation, and then in what is made of its result, if it ends well. -/
def andThen {α : Type} (moments : Moments) (m : Eval α) (rest : α → Moments) : Moments := fun s =>
  moments s ++
    match m s with
    | .ok a s' => rest a s'
    | .fault _ _ | .exhausted => []

/-- What happens in what is made of the result of a computation in which nothing happens. -/
def after {α : Type} (m : Eval α) (rest : α → Moments) : Moments := none.andThen m rest

/-- What happens in something that is executed in another scope. -/
def inScope (scope : EnvId) (moments : Moments) : Moments :=
  fun s => moments { s with current := scope }

end Moments

namespace Eval

open Moments (mark after inScope)

/-- The class that a class declaration names as superclass, if it names one. -/
def parentOf : Option Reference → Eval (Option Class)
  | none => pure none
  | some ref => some <$> superclass ref

/-- The class that a declaration makes, given its superclass. -/
def makeClass (name : Name) (parent : Option Class) (declarations : List FunctionDecl) :
    Eval Class := do
  let closure ← methodScope parent
  let methods ← makeMethods closure declarations
  let id ← freshIdentity
  return .extending ⟨id, name.text, methods⟩ parent

/-- To declare a class is to make it while its name is bound to something else. -/
theorem declareClass_eq (name : Name) (ref : Option Reference) (declarations : List FunctionDecl) :
    declareClass name ref declarations = (do
      let parent ← parentOf ref
      define name.text .nil
      let c ← makeClass name parent declarations
      define name.text (.cls c)) := by
  have hmake (parent : Option Class) : (do
      let c ← makeClass name parent declarations
      define name.text (.cls c)) = (do
        let closure ← methodScope parent
        let methods ← makeMethods closure declarations
        let id ← freshIdentity
        define name.text (.cls (.extending ⟨id, name.text, methods⟩ parent))) := by
    simp only [makeClass, bind_assoc, pure_bind]
  simp only [hmake]
  cases ref <;> rfl

/-- The method that `super.method` means in a state, and the object that it is for. -/
def inheritedIn? (id : NodeId) (method : Name) (s : State) : Option (Function × Object) :=
  match s.distances[id]? with
  | some (inner + 1) =>
    match s.store.lookupAt s.current (inner + 1) superclassWord,
        s.store.lookupAt s.current inner receiverWord with
    | .ok (.cls c), .ok (.object o) => (c.findMethod? method.text).map (·, o)
    | _, _ => none
  | _ => none

/-- What happens when a method becomes a function for an object, and after that. -/
def bindMoments (method : Function) (o : Object) (rest : Function → Moments) : Moments :=
  after (bindMethod method o) fun f => mark (.binds method f o) (rest f)

/-- What happens when a property of an object is looked up. -/
def propertyMoments (o : Object) (name : Name) : Moments := fun s =>
  match s.store.field? o.id name.text, o.cls.findMethod? name.text with
  | none, some method => bindMoments method o (fun _ => .none) s
  | _, _ => []

/-- What happens when a method of the superclass is looked up. -/
def inheritedMoments (id : NodeId) (method : Name) : Moments := fun s =>
  match inheritedIn? id method s with
  | some (found, o) => bindMoments found o (fun _ => .none) s
  | none => []

/-- What happens when a class is declared. -/
def classMoments (d : ClassDeclaration) : Moments :=
  after (parentOf d.superclass) fun parent => after (define d.name.text .nil) fun _ =>
    after (makeClass d.name parent d.methods) fun c => mark (.derives d parent c) .none

/-- What happens when a function is declared. -/
def functionMoments (d : FunctionDecl) : Moments :=
  after freshIdentity fun id => after (Run.gets State.current) fun closure =>
    mark (.declares ⟨id, d, closure, false⟩) .none

mutual

/-- What happens in the course of the evaluation of an expression. -/
def evalMoments : Nat → Expr → Moments
  | 0, _ => .none
  | fuel + 1, e => mark (.evaluates e) <|
    match e with
    | .literal _ | .name _ | .receiver _ _ => .none
    | .grouping inner => evalMoments fuel inner
    | .unary _ _ operand => evalMoments fuel operand
    | .binary _ _ left right =>
      (evalMoments fuel left).andThen (eval fuel left) fun _ => evalMoments fuel right
    | .logical op _ left right =>
      (evalMoments fuel left).andThen (eval fuel left) fun v =>
        if op.decides v then .none else evalMoments fuel right
    | .assign _ value => evalMoments fuel value
    | .call callee line arguments =>
      (evalMoments fuel callee).andThen (eval fuel callee) fun f =>
        (evalAllMoments fuel arguments).andThen (evalAll fuel arguments) fun values =>
          callMoments fuel f values line
    | .get object name =>
      (evalMoments fuel object).andThen (eval fuel object) fun
        | .object o => propertyMoments o name
        | _ => .none
    | .set object _ value =>
      (evalMoments fuel object).andThen (eval fuel object) fun
        | .object _ => evalMoments fuel value
        | _ => .none
    | .inherited id _ method => inheritedMoments id method

/-- What happens in the course of the evaluation of expressions. -/
def evalAllMoments : Nat → List Expr → Moments
  | 0, _ => .none
  | _ + 1, [] => .none
  | fuel + 1, e :: es =>
    (evalMoments fuel e).andThen (eval fuel e) fun _ => evalAllMoments fuel es

/-- What happens in the course of a call. -/
def callMoments : Nat → Value → List Value → Nat → Moments
  | 0, _, _, _ => .none
  | fuel + 1, callee, arguments, line => mark (.calls callee arguments line) <|
    match callee with
    | .function f =>
      after (checkArity f.arity arguments.length line) fun _ => invokeMoments fuel f arguments
    | .cls c =>
      after (checkArity c.arity arguments.length line) fun _ => after (newObject c) fun o =>
        mark (.creates o) <|
          match c.findMethod? initializerName with
          | some method => bindMoments method o fun f => invokeMoments fuel f arguments
          | none => .none
    | _ => .none

/-- What happens in the course of a call of a declared function. -/
def invokeMoments : Nat → Function → List Value → Moments
  | 0, _, _ => .none
  | fuel + 1, f, arguments =>
    after (newEnv f.closure) fun scope =>
      after (onStore fun store =>
          store.defineAll scope (f.declaration.parameters.map Name.text) arguments) fun _ =>
        mark (.enters f scope) (inScope scope (execAllMoments fuel f.declaration.body))

/-- What happens in the course of the execution of a statement. -/
def execMoments : Nat → Stmt → Moments
  | 0, _ => .none
  | fuel + 1, s => mark (.executes s) <|
    match s with
    | .expression e | .print e | .var _ (some e) | .giveBack _ (some e) => evalMoments fuel e
    | .var _ none | .giveBack _ none => .none
    | .block body =>
      after (Run.gets State.current) fun outer => after (newEnv outer) fun scope =>
        mark (.opens outer scope) (inScope scope (execAllMoments fuel body))
    | .ifThen condition thenBranch =>
      (evalMoments fuel condition).andThen (eval fuel condition) fun v =>
        if v.isTruthy then execMoments fuel thenBranch else .none
    | .ifElse condition thenBranch elseBranch =>
      (evalMoments fuel condition).andThen (eval fuel condition) fun v =>
        if v.isTruthy then execMoments fuel thenBranch else execMoments fuel elseBranch
    | .loop condition body =>
      (evalMoments fuel condition).andThen (eval fuel condition) fun v =>
        if v.isTruthy then
          (execMoments fuel body).andThen (exec fuel body) fun
            | .normal => execMoments fuel (.loop condition body)
            | .returning _ _ => .none
        else .none
    | .function d => functionMoments d
    | .classDef name superclass methods => fun s => classMoments ⟨s, name, superclass, methods⟩ s

/-- What happens in the course of the execution of statements, up to a `return`. -/
def execAllMoments : Nat → List Stmt → Moments
  | 0, _ => .none
  | _ + 1, [] => .none
  | fuel + 1, s :: ss =>
    (execMoments fuel s).andThen (exec fuel s) fun
      | .normal => execAllMoments fuel ss
      | .returning _ _ => .none

end

/-- What happens in the course of a run of a program. -/
def programMoments (fuel : Nat) : List Stmt → Moments
  | [] => .none
  | s :: ss =>
    (execMoments fuel s).andThen (exec fuel s) fun
      | .normal => after (echo s) fun _ => programMoments fuel ss
      | .returning _ _ => .none

end Eval

end ScopedScript
