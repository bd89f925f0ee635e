import Mathlib.Logic.Relation
import ScopedScript.Proofs.Store.Extension

/-!
# What can be reached through a store

A value leads to cells: the scopes, the objects, and the functions and classes, which are known by
their numbers alone. What it leads to by itself never changes, since functions and classes do not:
a function leads to its closure, a class to its methods and to the classes that it inherits from, an
object to its class. From there on it is the store that tells: a scope leads to what its values
mention and to the scope that encloses it, an object to what the values of its fields mention. One
operation on a store adds at most the links that the new scope or the new value brings along.
-/

namespace ScopedScript

/-- What can be shared among values: a scope, an object, or a function, class or native. -/
inductive Cell where
  | env (e : EnvId)
  | object (o : ObjectId)
  | callable (id : Identity)
  deriving DecidableEq

/-- A function leads to itself and to its closure. -/
def Function.Mentions (f : Function) (c : Cell) : Prop := c = .callable f.id ∨ c = .env f.closure

/-- The declaration of a class leads to itself and to its methods. -/
def ClassLayer.Mentions (layer : ClassLayer) (c : Cell) : Prop :=
  c = .callable layer.id ∨ ∃ x f, layer.methods.get? x = some f ∧ f.Mentions c

/-- A class leads to what it and the classes that it inherits from declare. -/
def Class.Mentions (k : Class) (c : Cell) : Prop := ∃ layer ∈ k.own :: k.inherited, layer.Mentions c

/-- What a value leads to without a look at the store. -/
def Value.Mentions : Value → Cell → Prop
  | .function f, c => f.Mentions c
  | .cls k, c => k.Mentions c
  | .native f, c => c = .callable f.id
  | .object o, c => c = .object o.id ∨ o.cls.Mentions c
  | .nil, _ | .bool _, _ | .number _, _ | .string _, _ => False

/-- All that a value leads to lies in a set of cells. -/
def Value.In (K : Cell → Prop) (v : Value) : Prop := ∀ c, v.Mentions c → K c

section Mentions

variable {K K' : Cell → Prop} {c : Cell} {x : String}

theorem Value.In.mono {v : Value} (h : v.In K) (hK : ∀ c, K c → K' c) : v.In K' :=
  fun c hc => hK c (h c hc)

theorem Value.in_nil : Value.nil.In K := fun _ hc => hc.elim

theorem Literal.in_value (l : Literal) : l.value.In K := by
  cases l <;> exact fun _ hc => hc.elim

theorem Class.mentions_of_findMethod? {k : Class} {f : Function} (h : k.findMethod? x = some f)
    (hc : f.Mentions c) : k.Mentions c := by
  obtain ⟨layer, hlayer, hget⟩ := List.exists_of_findSome?_eq_some h
  exact ⟨layer, hlayer, Or.inr ⟨x, f, hget, hc⟩⟩

theorem Class.mentions_extending {own : ClassLayer} {parent : Option Class} :
    (Class.extending own parent).Mentions c ↔ own.Mentions c ∨ ∃ k ∈ parent, k.Mentions c := by
  unfold Class.Mentions
  cases parent with
  | none => simp [Class.extending]
  | some k => simp [Class.extending]

end Mentions

namespace Store

variable {st : Store} {a b : Cell} {e : EnvId} {o : ObjectId} {x : String} {v : Value}

/-- One cell leads to another one through what a store says of it. -/
inductive Link (st : Store) : Cell → Cell → Prop
  | binding {e : EnvId} {x : String} {v : Value} {c : Cell} :
      st.binding? e x = some v → v.Mentions c → Link st (.env e) c
  | enclosing {e outer : EnvId} : st.enclosing? e = some outer → Link st (.env e) (.env outer)
  | field {o : ObjectId} {x : String} {v : Value} {c : Cell} :
      st.field? o x = some v → v.Mentions c → Link st (.object o) c

namespace Link

theorem not_of_empty : ¬Store.empty.Link a b := by
  intro h
  cases h with
  | binding hv _ => simp [Store.empty, binding?] at hv
  | enclosing houter => simp [Store.empty, enclosing?] at houter
  | field hv _ => simp [Store.empty, field?] at hv

theorem of_define (h : (st.define e x v).Link a b) : st.Link a b ∨ v.Mentions b := by
  cases h with
  | @binding e' y w _ hw hb =>
      rw [binding?_define] at hw
      by_cases hbound : e = e' ∧ x = y ∧ st.HasEnv e
      · rw [if_pos hbound] at hw
        cases hw
        exact Or.inr hb
      · rw [if_neg hbound] at hw
        exact Or.inl (.binding hw hb)
  | enclosing houter =>
      rw [enclosing?_define] at houter
      exact Or.inl (.enclosing houter)
  | field hw hb => exact Or.inl (.field hw hb)

theorem of_addEnv {outer : Option EnvId} (h : (st.addEnv outer).Link a b) :
    st.Link a b ∨ ∃ e ∈ outer, b = .env e := by
  cases h with
  | binding hw hb =>
      rw [binding?_addEnv] at hw
      exact Or.inl (.binding hw hb)
  | @enclosing e' outer' houter =>
      rw [enclosing?_addEnv] at houter
      by_cases he : e' = st.nextEnv
      · rw [if_pos he] at houter
        exact Or.inr ⟨outer', houter, rfl⟩
      · rw [if_neg he] at houter
        exact Or.inl (.enclosing houter)
  | field hw hb => exact Or.inl (.field hw hb)

theorem of_addObject (h : st.addObject.Link a b) : st.Link a b := by
  cases h with
  | binding hw hb => exact .binding hw hb
  | enclosing houter => exact .enclosing houter
  | field hw hb =>
      rw [field?_addObject] at hw
      exact .field hw hb

theorem of_setField (h : (st.setField o x v).Link a b) : st.Link a b ∨ v.Mentions b := by
  cases h with
  | binding hw hb => exact Or.inl (.binding hw hb)
  | enclosing houter => exact Or.inl (.enclosing houter)
  | @field o' y w _ hw hb =>
      rw [field?_setField] at hw
      by_cases hset : o = o' ∧ x = y ∧ st.HasObject o
      · rw [if_pos hset] at hw
        cases hw
        exact Or.inr hb
      · rw [if_neg hset] at hw
        exact Or.inl (.field hw hb)

end Link

section Untouched

variable {e' : EnvId} {o' : ObjectId}

theorem envs_define_of_ne (h : e ≠ e') : (st.define e x v).envs[e']? = st.envs[e']? := by
  unfold define
  rw [Array.getElem?_modify, if_neg h]

theorem envs_addEnv {outer : Option EnvId} (h : st.HasEnv e) :
    (st.addEnv outer).envs[e]? = st.envs[e]? := by
  unfold addEnv
  rw [Array.getElem?_push, if_neg (Nat.ne_of_lt h)]

theorem fields_addObject (h : st.HasObject o) : st.addObject.fields[o]? = st.fields[o]? := by
  unfold addObject
  rw [Array.getElem?_push, if_neg (Nat.ne_of_lt h)]

theorem fields_setField_of_ne (h : o ≠ o') : (st.setField o x v).fields[o']? = st.fields[o']? := by
  unfold setField
  rw [Array.getElem?_modify, if_neg h]

end Untouched

section Closed

variable {K : Cell → Prop}

/-- A set of cells that no link leads out of holds all that can be reached from its cells. -/
theorem mem_of_reflTransGen (hK : ∀ a b, st.Link a b → K a → K b)
    (h : Relation.ReflTransGen st.Link a b) (ha : K a) : K b := by
  induction h with
  | refl => exact ha
  | tail _ hlink ih => exact hK _ _ hlink ih

theorem mem_of_ancestor? (hK : ∀ a b, st.Link a b → K a → K b) {d : Nat} {target : EnvId}
    (h : st.ancestor? e d = some target) (he : K (.env e)) : K (.env target) := by
  induction d generalizing e with
  | zero =>
      cases h
      exact he
  | succ d ih =>
      obtain ⟨outer, houter, htarget⟩ := Option.bind_eq_some_iff.mp h
      exact ih htarget (hK _ _ (.enclosing houter) he)

theorem mem_of_binderWithin? (hK : ∀ a b, st.Link a b → K a → K b) {fuel : Nat} {binder : EnvId}
    (h : st.binderWithin? x fuel e = some binder) (he : K (.env e)) : K (.env binder) := by
  induction fuel generalizing e with
  | zero => cases h
  | succ fuel ih =>
      unfold binderWithin? at h
      by_cases hbinds : (st.binding? e x).isSome
      · rw [if_pos hbinds] at h
        cases h
        exact he
      · rw [if_neg hbinds] at h
        obtain ⟨outer, houter, hbinder⟩ := Option.bind_eq_some_iff.mp h
        exact ih hbinder (hK _ _ (.enclosing houter) he)

theorem in_of_binding? (hK : ∀ a b, st.Link a b → K a → K b) (h : st.binding? e x = some v)
    (he : K (.env e)) : v.In K :=
  fun _ hc => hK _ _ (.binding h hc) he

theorem in_of_field? (hK : ∀ a b, st.Link a b → K a → K b) (h : st.field? o x = some v)
    (ho : K (.object o)) : v.In K :=
  fun _ hc => hK _ _ (.field h hc) ho

theorem in_of_lookupAt (hK : ∀ a b, st.Link a b → K a → K b) {d : Nat}
    (h : st.lookupAt e d x = .ok v) (he : K (.env e)) : v.In K := by
  unfold lookupAt at h
  cases htarget : st.ancestor? e d with
  | none =>
      rw [htarget] at h
      cases h
  | some target =>
      simp only [htarget] at h
      cases hbinding : st.binding? target x with
      | none =>
          rw [hbinding] at h
          cases h
      | some w =>
          rw [hbinding] at h
          cases h
          exact in_of_binding? hK hbinding (mem_of_ancestor? hK htarget he)

theorem in_of_lookup? (hK : ∀ a b, st.Link a b → K a → K b) (h : st.lookup? e x = some v)
    (he : K (.env e)) : v.In K := by
  obtain ⟨binder, hbinder, hbinding⟩ := Option.bind_eq_some_iff.mp h
  exact in_of_binding? hK hbinding (mem_of_binderWithin? hK hbinder he)

end Closed

end Store

end ScopedScript
