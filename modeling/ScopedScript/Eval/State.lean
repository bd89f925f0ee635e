import ScopedScript.Eval.Fault
import ScopedScript.Outcome
import ScopedScript.Scope.Resolution
import ScopedScript.Store.Basic

/-!
# The state of a run

A run changes a store, and it deals with the world through a sink for what it prints and a host for
what natives answer. Both may do as they please: any write may be refused, and a native may answer
each call differently. So a clock is a native too, whose answers the host reads off.
-/

namespace ScopedScript

/-- Where texts are written to. -/
structure Sink where
  /-- Why the write with a given number is refused, if it is. -/
  refusal? : Nat → Option String
  /-- How many writes there have been. -/
  writes : Nat
  /-- What has been written. -/
  text : String

namespace Sink

/-- The sink that takes everything. -/
def accepting : Sink := ⟨fun _ => none, 0, ""⟩

/-- Write a text; the answer is why it was refused, if it was. -/
def write (s : Sink) (text : String) : Option String × Sink :=
  match s.refusal? s.writes with
  | some reason => (some reason, { s with writes := s.writes + 1 })
  | none => (none, { s with writes := s.writes + 1, text := s.text ++ text })

end Sink

/-- What natives answer. -/
structure Host where
  /-- The answer to the call of a native, given how many calls of natives there were before. -/
  answer : Native → Nat → List Value → Except String Value

/-- The native that every program can call, and its number. -/
def clock : Native := ⟨0, "clock", 0⟩

/-- The host whose only native is the clock, given what the clock shows at each call. -/
def Host.ofClock (readings : Nat → Float) : Host :=
  ⟨fun _ calls _ => .ok (.number (readings calls))⟩

/-- The state of a run. -/
structure State where
  store : Store
  globals : EnvId
  /-- The scope in which the statement under way is executed. -/
  current : EnvId
  distances : Distances
  /-- The value of the last expression statement. -/
  lastValue : Value
  /-- Whether the values of expression statements at the top level are printed. -/
  echo : Bool
  sink : Sink
  host : Host
  nativeCalls : Nat
  nextIdentity : Identity

/-- The state in which nothing has been run yet. -/
def State.initial (host : Host) (sink : Sink) : State where
  store := (Store.empty.addEnv none).define 0 clock.name (.native clock)
  globals := 0
  current := 0
  distances := ∅
  lastValue := .nil
  echo := false
  sink := sink
  host := host
  nativeCalls := 0
  nextIdentity := clock.id + 1

/-- A computation of a running program. -/
abbrev Eval (α : Type) := Run Halt State α

namespace Eval

/-- Stop: an operation on `line` went wrong. -/
def fail {α : Type} (fault : RuntimeFault) (line : Nat) : Eval α :=
  Run.fail (.runtime fault line)

/-- Change the store. -/
def onStore (f : Store → Store) : Eval Unit :=
  Run.modify fun s => { s with store := f s.store }

/-- Print a text on a line of its own. -/
def emit (text : String) : Eval Unit := fun s =>
  let (refusal, sink) := s.sink.write (text ++ "\n")
  let s := { s with sink := sink }
  match refusal with
  | some reason => .fault (.output reason) s
  | none => .ok () s

/-- A number by which no function, class or native is known yet. -/
def freshIdentity : Eval Identity :=
  Run.update fun s => (s.nextIdentity, { s with nextIdentity := s.nextIdentity + 1 })

/-- Add a scope. -/
def newEnv (enclosing : EnvId) : Eval EnvId :=
  Run.update fun s => (s.store.nextEnv, { s with store := s.store.addEnv (some enclosing) })

/-- Add an object of a class. -/
def newObject (cls : Class) : Eval Object :=
  Run.update fun s => (⟨s.store.nextObject, cls⟩, { s with store := s.store.addObject })

/-- Bind a name in the current scope. -/
def define (name : String) (value : Value) : Eval Unit :=
  Run.modify fun s => { s with store := s.store.define s.current name value }

/-- Execute something in another scope, and come back to the current one however it ends. -/
@[inline] def within {α : Type} (scope : EnvId) (m : Eval α) : Eval α := fun s =>
  let outer := s.current
  match m { s with current := scope } with
  | .ok a s => .ok a { s with current := outer }
  | .fault e s => .fault e { s with current := outer }
  | .exhausted => .exhausted

/-- The value of a name in the scope at a distance from a given one. -/
def readAt (scope : EnvId) (distance : Nat) (name : Name) : Eval Value := do
  let s ← Run.get
  match s.store.lookupAt scope distance name.text with
  | .ok value => return value
  | .error .noScope => fail (.scopeMismatch distance name.text) name.line
  | .error .noBinding => fail (.unboundLocal name.text) name.line

/-- The value of a name in the nearest scope that binds it, from a given one on outwards. -/
def readFrom (scope : EnvId) (name : Name) : Eval Value := do
  let s ← Run.get
  match s.store.lookup? scope name.text with
  | some value => return value
  | none => fail (.undefinedVariable name.text) name.line

/-- Give a name a new value in the nearest scope that binds it, from a given one on outwards. -/
def assignFrom (scope : EnvId) (name : Name) (value : Value) : Eval Unit := do
  let s ← Run.get
  match s.store.assign? scope name.text value with
  | some store => onStore fun _ => store
  | none => fail (.undefinedVariable name.text) name.line

/-- The scope at a distance from a given one, where a name is to be found. -/
def ancestorAt (scope : EnvId) (distance : Nat) (name : Name) : Eval EnvId := do
  let s ← Run.get
  match s.store.ancestor? scope distance with
  | some target => return target
  | none => fail (.scopeMismatch distance name.text) name.line

/-- Bind a name in the scope at a distance from a given one. -/
def defineAt (scope : EnvId) (distance : Nat) (name : Name) (value : Value) : Eval Unit := do
  let s ← Run.get
  match s.store.defineAt? scope distance name.text value with
  | some store => onStore fun _ => store
  | none => fail (.scopeMismatch distance name.text) name.line

/-- The value of a reference: in the scope at its distance if it has one, else in the global
scope. -/
def read (id : NodeId) (name : Name) : Eval Value := do
  let s ← Run.get
  match s.distances[id]? with
  | some distance => readAt s.current distance name
  | none =>
    match s.store.lookup? s.globals name.text with
    | some value => return value
    | none => fail (.undefinedVariable name.text) name.line

/-- The scope that an assignment to a reference changes: the one at its distance if it has one,
else the global scope, which has to bind the name already. -/
def assignmentTarget (ref : Reference) : Eval EnvId := do
  let s ← Run.get
  let name := ref.name
  match s.distances[ref.id]? with
  | some distance =>
    match s.store.ancestor? s.current distance with
    | some target => return target
    | none => fail (.scopeMismatch distance name.text) name.line
  | none =>
    match s.store.binder? s.globals name.text with
    | some target => return target
    | none => fail (.undefinedVariable name.text) name.line

/-- Assign to a reference. -/
def assign (ref : Reference) (value : Value) : Eval Unit := do
  let target ← assignmentTarget ref
  onStore fun store => store.define target ref.name.text value

end Eval

end ScopedScript
