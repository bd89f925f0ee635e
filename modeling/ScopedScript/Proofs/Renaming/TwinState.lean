import Mathlib.Data.List.Forall2
import ScopedScript.Proofs.Eval.Growth
import ScopedScript.Proofs.Resemblance
import ScopedScript.Proofs.Renaming.Twin

/-!
# Twins of states

A program and its twin run through states that differ as the programs do. A scope of the store that
is marked binds each name to what the twin binds the exchanged name to, and functions differ in
their declarations, which are twins in the scopes of their closures. Everything else is the same:
the scopes and objects there are, what has been printed and what is asked next.
-/

namespace ScopedScript

/-- For each scope of a store, whether names are exchanged in it. -/
abbrev Marking := EnvId → Bool

/-- A marking that marks one scope, or does not, and is otherwise as it was. -/
def Marking.mark (F : Marking) (e : EnvId) (b : Bool) : Marking := fun e' =>
  if e' = e then b else F e'

/-- The marks along the chain of a scope, up to the global one. -/
def State.Marked (s : State) (F : Marking) : EnvId → Marks → Prop
  | e, [] => e = s.globals
  | e, b :: marks => F e = b ∧ ∃ outer, s.store.enclosing? e = some outer ∧ s.Marked F outer marks

/-- Functions that differ in their declarations. These are twins in the scopes of the closure, with
further scopes inside it that are not there yet. -/
inductive Function.Twin (ρ : Renaming) (s : State) (F : Marking) (inner : Marks) :
    Function → Function → Prop where
  | mk {id d d' closure isInitializer marks} : s.Marked F closure marks →
      FunctionDecl.Twin ρ (inner ++ marks) d d' →
      Function.Twin ρ s F inner ⟨id, d, closure, isInitializer⟩ ⟨id, d', closure, isInitializer⟩

/-- Tables of methods, which are twins one by one. Between a method and the closure it was declared
with lies the scope that binds `this`. -/
def Methods.Twin (ρ : Renaming) (s : State) (F : Marking) (find find' : String → Option Function) :
    Prop := ∀ x, Option.Rel (Function.Twin ρ s F [false]) (find x) (find' x)

/-- Classes whose methods, also the inherited ones, are twins. -/
structure Class.Twin (ρ : Renaming) (s : State) (F : Marking) (c c' : Class) : Prop where
  id_eq : c'.own.id = c.own.id
  name_eq : c'.name = c.name
  methods : Methods.Twin ρ s F c.findMethod? c'.findMethod?

/-- Values that differ in the declarations of the functions that can be reached through them. -/
inductive Value.Twin (ρ : Renaming) (s : State) (F : Marking) : Value → Value → Prop where
  | nil : Value.Twin ρ s F .nil .nil
  | bool {value} : Value.Twin ρ s F (.bool value) (.bool value)
  | number {value} : Value.Twin ρ s F (.number value) (.number value)
  | string {text} : Value.Twin ρ s F (.string text) (.string text)
  | native {f} : Value.Twin ρ s F (.native f) (.native f)
  | function {f f'} : Function.Twin ρ s F [] f f' → Value.Twin ρ s F (.function f) (.function f')
  | cls {c c'} : Class.Twin ρ s F c c' → Value.Twin ρ s F (.cls c) (.cls c')
  | object {id c c'} : Class.Twin ρ s F c c' → Value.Twin ρ s F (.object ⟨id, c⟩) (.object ⟨id, c'⟩)

section Marked

variable {s : State} {F : Marking} {e : EnvId} {marks : Marks} {b : Bool}

/-- The scope at a distance up the chain has the mark at that distance. -/
theorem State.Marked.at_ancestor {target : EnvId} {d : Nat} (h : s.Marked F e marks)
    (hs : s.Grounded) (hglobals : F s.globals = false)
    (htarget : s.store.ancestor? e d = some target) : F target = marks.at d := by
  induction marks generalizing e d with
  | nil =>
      cases h
      cases d with
      | zero =>
          cases htarget
          exact hglobals
      | succ d =>
          unfold Store.ancestor? at htarget
          -- the marks end with the global scope, which nothing encloses
          rw [hs.outermost] at htarget
          cases htarget
  | cons b marks ih =>
      obtain ⟨hmark, outer, houter, hrest⟩ := h
      cases d with
      | zero =>
          cases htarget
          exact hmark
      | succ d =>
          unfold Store.ancestor? at htarget
          rw [houter] at htarget
          exact ih hrest htarget

theorem Marking.mark_self (F : Marking) : F.mark e b e = b := if_pos rfl

theorem Marking.mark_of_hasEnv (he : s.store.HasEnv e) :
    F.mark s.store.nextEnv b e = F e := if_neg (Nat.ne_of_lt he)

end Marked

section Advance

/-- A later state with its marking, in which the scopes that there were have the marks they had. -/
structure State.Advances (s : State) (F : Marking) (s' : State) (F' : Marking) : Prop where
  globals_eq : s'.globals = s.globals
  store_extends : s.store.Extends s'.store
  agrees : ∀ {e : EnvId}, s.store.HasEnv e → F' e = F e

variable {ρ : Renaming} {s s' s₁ s₂ s₃ : State} {F F' F₁ F₂ F₃ : Marking} {inner marks : Marks}

theorem State.Advances.refl (s : State) (F : Marking) : s.Advances F s F :=
  ⟨rfl, .refl _, fun _ => rfl⟩

theorem State.Advances.trans (h₁ : s₁.Advances F₁ s₂ F₂) (h₂ : s₂.Advances F₂ s₃ F₃) :
    s₁.Advances F₁ s₃ F₃ where
  globals_eq := h₂.globals_eq.trans h₁.globals_eq
  store_extends := h₁.store_extends.trans h₂.store_extends
  agrees he := (h₂.agrees (h₁.store_extends.hasEnv he)).trans (h₁.agrees he)

theorem State.Marked.mono {e : EnvId} (h : s.Marked F e marks) (hs : s.Advances F s' F') :
    s'.Marked F' e marks := by
  induction marks generalizing e with
  | nil => exact Eq.trans h hs.globals_eq.symm
  | cons b marks ih =>
      obtain ⟨hmark, outer, houter, hrest⟩ := h
      have he : s.store.HasEnv e := Store.hasEnv_of_enclosing? houter
      exact ⟨(hs.agrees he).trans hmark, outer, (hs.store_extends.enclosing he).trans houter,
        ih hrest⟩

theorem Function.Twin.mono {f f' : Function} (h : Function.Twin ρ s F inner f f')
    (hs : s.Advances F s' F') : Function.Twin ρ s' F' inner f f' := by
  cases h with
  | mk hmarked hd => exact .mk (hmarked.mono hs) hd

theorem Methods.Twin.mono {find find' : String → Option Function}
    (h : Methods.Twin ρ s F find find') (hs : s.Advances F s' F') :
    Methods.Twin ρ s' F' find find' := fun x => (h x).imp fun _ _ hf => hf.mono hs

theorem Class.Twin.mono {c c' : Class} (h : Class.Twin ρ s F c c') (hs : s.Advances F s' F') :
    Class.Twin ρ s' F' c c' := ⟨h.id_eq, h.name_eq, h.methods.mono hs⟩

theorem Value.Twin.mono {v v' : Value} (h : Value.Twin ρ s F v v') (hs : s.Advances F s' F') :
    Value.Twin ρ s' F' v v' := by
  cases h with
  | nil => exact .nil
  | bool => exact .bool
  | number => exact .number
  | string => exact .string
  | native => exact .native
  | function hf => exact .function (hf.mono hs)
  | cls hc => exact .cls (hc.mono hs)
  | object hc => exact .object (hc.mono hs)

end Advance

section Observed

variable {ρ : Renaming} {s : State} {F : Marking} {inner : Marks} {v v' : Value}

theorem Function.Twin.resembles {f f' : Function} (h : Function.Twin ρ s F inner f f') :
    f.Resembles f' := by
  cases h with
  | mk _ hd =>
      refine ⟨rfl, congrArg Name.text hd.name_eq, ?_⟩
      cases hd
      exact List.length_map _

theorem Class.Twin.resembles {c c' : Class} (h : Class.Twin ρ s F c c') : c.Resembles c' where
  id_eq := h.id_eq
  name_eq := h.name_eq
  arity_eq := Class.arity_eq_of_initializer (h.methods initializerName) fun _ _ hf =>
    hf.resembles.arity_eq

/-- Twins look the same. -/
theorem Value.Twin.resembles (h : Value.Twin ρ s F v v') : v.Resembles v' := by
  cases h with
  | nil => exact .nil
  | bool => exact .bool
  | number => exact .number
  | string => exact .string
  | native => exact .native
  | function hf => exact .function hf.resembles
  | cls hc => exact .cls hc.resembles
  | object hc => exact .object hc.resembles

/-- A value in which there is no function is its own twin. -/
theorem Value.twin_of_plain (h : v.IsPlain) : Value.Twin ρ s F v v := by
  cases h <;> constructor

/-- Declarations that make twins of methods make twins of classes, given those of a superclass. -/
theorem Class.Twin.extending {id : Identity} {name : String} {methods methods' : Bindings Function}
    {parent parent' : Option Class} (h : Methods.Twin ρ s F methods.get? methods'.get?)
    (hparent : Option.Rel (Class.Twin ρ s F) parent parent') :
    Class.Twin ρ s F (.extending ⟨id, name, methods⟩ parent)
      (.extending ⟨id, name, methods'⟩ parent') := by
  have hmethods : Methods.Twin ρ s F (Class.extending ⟨id, name, methods⟩ parent).findMethod?
      (Class.extending ⟨id, name, methods'⟩ parent').findMethod? := fun x =>
    Class.rel_findMethod?_extending (h x) (hparent.imp fun _ _ hc => hc.methods x)
  cases hparent <;> exact ⟨rfl, rfl, hmethods⟩

end Observed

end ScopedScript
