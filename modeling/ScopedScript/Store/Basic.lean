import ScopedScript.Store.Value

/-!
# The store

The store holds what can change in the course of a run: the scopes, and the fields of objects.
Scopes and objects are known by number. A scope may be enclosed by another one; the scopes from one
on outwards are its chain. Names are looked up along a chain, or in the scope at a given distance up
the chain.
-/

namespace ScopedScript

/-- A scope of a running program. -/
structure Env where
  bindings : Bindings Value
  enclosing : Option EnvId
  deriving Inhabited

/-- The scopes and the fields of the objects of a running program. -/
structure Store where
  envs : Array Env
  fields : Array (Bindings Value)
  deriving Inhabited

/-- Why a scope at a distance does not give the value of a name. -/
inductive AccessFault where
  /-- The chain ends before the distance. -/
  | noScope
  /-- The scope does not bind the name. -/
  | noBinding
  deriving DecidableEq, Repr

namespace Store

/-- The store without scopes and objects. -/
def empty : Store := ⟨#[], #[]⟩

/-- The number of the next scope. -/
def nextEnv (s : Store) : EnvId := s.envs.size

/-- The number of the next object. -/
def nextObject (s : Store) : ObjectId := s.fields.size

/-- Add a scope that binds nothing; its number is `nextEnv`. -/
def addEnv (s : Store) (enclosing : Option EnvId) : Store :=
  { s with envs := s.envs.push ⟨.empty, enclosing⟩ }

/-- Add an object without fields; its number is `nextObject`. -/
def addObject (s : Store) : Store := { s with fields := s.fields.push .empty }

/-- The scope that encloses a scope. -/
def enclosing? (s : Store) (e : EnvId) : Option EnvId := s.envs[e]?.bind Env.enclosing

/-- The value that a scope itself binds a name to. -/
def binding? (s : Store) (e : EnvId) (name : String) : Option Value :=
  s.envs[e]?.bind fun env => env.bindings.get? name

/-- Bind a name in a scope, in place of what it was bound to there. -/
def define (s : Store) (e : EnvId) (name : String) (value : Value) : Store :=
  { s with envs := s.envs.modify e fun env =>
      { env with bindings := env.bindings.insert name value } }

/-- Bind names in a scope, one after the other, as far as there are values. -/
def defineAll (s : Store) (e : EnvId) : List String → List Value → Store
  | name :: names, value :: values => (s.define e name value).defineAll e names values
  | _, _ => s

/-- The nearest of the first `fuel` scopes of a chain that binds a name. -/
def binderWithin? (s : Store) (name : String) : Nat → EnvId → Option EnvId
  | 0, _ => none
  | fuel + 1, e =>
    if (s.binding? e name).isSome then some e
    else (s.enclosing? e).bind (s.binderWithin? name fuel)

/-- The nearest scope of a chain that binds a name. A scope is enclosed by an earlier one, so the
chain of scope `e` has at most `e + 1` scopes. -/
def binder? (s : Store) (e : EnvId) (name : String) : Option EnvId :=
  s.binderWithin? name (e + 1) e

/-- The value of a name in the nearest scope of a chain that binds it. -/
def lookup? (s : Store) (e : EnvId) (name : String) : Option Value :=
  (s.binder? e name).bind fun binder => s.binding? binder name

/-- Bind a name anew in the nearest scope of a chain that binds it, if there is one. -/
def assign? (s : Store) (e : EnvId) (name : String) (value : Value) : Option Store :=
  match s.binder? e name with
  | some binder => some (s.define binder name value)
  | none => none

/-- The scope at a distance up a chain. -/
def ancestor? (s : Store) : EnvId → Nat → Option EnvId
  | e, 0 => some e
  | e, distance + 1 => (s.enclosing? e).bind fun outer => s.ancestor? outer distance

/-- The value of a name in the scope at a distance up a chain. -/
def lookupAt (s : Store) (e : EnvId) (distance : Nat) (name : String) :
    Except AccessFault Value :=
  match s.ancestor? e distance with
  | none => .error .noScope
  | some target =>
    match s.binding? target name with
    | none => .error .noBinding
    | some value => .ok value

/-- Bind a name in the scope at a distance up a chain, if there is one. -/
def defineAt? (s : Store) (e : EnvId) (distance : Nat) (name : String) (value : Value) :
    Option Store :=
  match s.ancestor? e distance with
  | some target => some (s.define target name value)
  | none => none

/-- The value of a field of an object. -/
def field? (s : Store) (o : ObjectId) (name : String) : Option Value :=
  s.fields[o]?.bind fun fields => fields.get? name

/-- Give a field of an object a value. -/
def setField (s : Store) (o : ObjectId) (name : String) (value : Value) : Store :=
  { s with fields := s.fields.modify o fun fields => fields.insert name value }

end Store

end ScopedScript
