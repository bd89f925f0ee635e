import Mathlib.Data.List.Forall2
import ScopedScript.Proofs.Eval.Growth
import ScopedScript.Proofs.Loop.Layers
import ScopedScript.Proofs.Relabelling.State
import ScopedScript.Proofs.Resemblance

/-!
# Coupled states

Two runs of what is almost the same program are coupled while their scopes correspond, but for those
that only one of them has. Scopes that correspond bind the same names to values that are alike, and
all other scopes bind nothing. Functions that are alike have the same text, with other numbers for
the references, and closures whose chains correspond.
-/

namespace ScopedScript

/-- The states of two runs, and the scopes of theirs that correspond. -/
structure World where
  first : State
  second : State
  pairs : EnvId → EnvId → Prop

/-- The chains of two scopes, up to the global ones, have the scopes that are listed: those that
both runs have correspond, and one that only one run has corresponds to none. -/
def World.Chains (w : World) : Layers → EnvId → EnvId → Prop
  | [], e, e' => e = w.first.globals ∧ e' = w.second.globals
  | .both :: P, e, e' => w.pairs e e' ∧ ∃ outer outer',
      w.first.store.enclosing? e = some outer ∧ w.second.store.enclosing? e' = some outer' ∧
        w.Chains P outer outer'
  | .first :: P, e, e' => (∀ f', ¬w.pairs e f') ∧
      ∃ outer, w.first.store.enclosing? e = some outer ∧ w.Chains P outer e'
  | .second :: P, e, e' => (∀ f, ¬w.pairs f e') ∧
      ∃ outer', w.second.store.enclosing? e' = some outer' ∧ w.Chains P e outer'

/-- Functions that differ in the numbers of their references. Both runs find the same scopes for
these, along the chains of the closures with further scopes inside that are not there yet. -/
inductive Function.Alike (T : Tables) (w : World) (inner : Layers) :
    Function → Function → Prop where
  | mk {id d closure closure' isInitializer node P} : w.Chains P closure closure' → P.Meet →
      d.Aligned T node (inner ++ P) → Function.Alike T w inner ⟨id, d, closure, isInitializer⟩
        ⟨id, d.relabel (.renumber node), closure', isInitializer⟩

/-- Tables of methods, which are alike one by one. Between a method and the closure it was declared
with lies the scope that binds `this`. -/
def Methods.Alike (T : Tables) (w : World) (find find' : String → Option Function) : Prop :=
  ∀ x, Option.Rel (Function.Alike T w [.both]) (find x) (find' x)

/-- Classes whose methods, also the inherited ones, are alike. -/
structure Class.Alike (T : Tables) (w : World) (c c' : Class) : Prop where
  id_eq : c'.own.id = c.own.id
  name_eq : c'.name = c.name
  methods : Methods.Alike T w c.findMethod? c'.findMethod?

/-- Values that differ in the functions that can be reached through them. -/
inductive Value.Alike (T : Tables) (w : World) : Value → Value → Prop where
  | nil : Value.Alike T w .nil .nil
  | bool {value} : Value.Alike T w (.bool value) (.bool value)
  | number {value} : Value.Alike T w (.number value) (.number value)
  | string {text} : Value.Alike T w (.string text) (.string text)
  | native {f} : Value.Alike T w (.native f) (.native f)
  | function {f f'} : Function.Alike T w [] f f' → Value.Alike T w (.function f) (.function f')
  | cls {c c'} : Class.Alike T w c c' → Value.Alike T w (.cls c) (.cls c')
  | object {id c c'} :
      Class.Alike T w c c' → Value.Alike T w (.object ⟨id, c⟩) (.object ⟨id, c'⟩)

/-- What two runs have in common besides their stores. -/
structure State.Even (T : Tables) (s s' : State) : Prop where
  first_grounded : s.Grounded
  second_grounded : s'.Grounded
  first_distances : s.distances = T.first
  second_distances : s'.distances = T.second
  sink_eq : s'.sink = s.sink
  host_eq : s'.host = s.host
  nativeCalls_eq : s'.nativeCalls = s.nativeCalls
  nextIdentity_eq : s'.nextIdentity = s.nextIdentity

/-- The stores of two runs match: a scope that binds something has a counterpart, which binds the
same names to values that are alike, and so do the fields of objects. -/
structure World.Matched (T : Tables) (w : World) : Prop where
  globals : w.pairs w.first.globals w.second.globals
  unique : ∀ {e e' f f'}, w.pairs e e' → w.pairs f f' → (e = f ↔ e' = f')
  first_hasEnv : ∀ {e e'}, w.pairs e e' → w.first.store.HasEnv e
  second_hasEnv : ∀ {e e'}, w.pairs e e' → w.second.store.HasEnv e'
  binding : ∀ {e e'}, w.pairs e e' → ∀ x, Option.Rel (Value.Alike T w)
    (w.first.store.binding? e x) (w.second.store.binding? e' x)
  first_bare : ∀ {e x v}, w.first.store.binding? e x = some v → ∃ e', w.pairs e e'
  second_bare : ∀ {e' x v}, w.second.store.binding? e' x = some v → ∃ e, w.pairs e e'
  nextObject_eq : w.second.store.nextObject = w.first.store.nextObject
  field : ∀ o x, Option.Rel (Value.Alike T w) (w.first.store.field? o x)
    (w.second.store.field? o x)

/-- Two runs are coupled. -/
structure World.Coupled (T : Tables) (w : World) : Prop where
  even : w.first.Even T w.second
  «matched» : w.Matched T

/-- Later states, in which the scopes that there were correspond as they did. -/
structure World.Precedes (w w' : World) : Prop where
  first_globals : w'.first.globals = w.first.globals
  second_globals : w'.second.globals = w.second.globals
  first_extends : w.first.store.Extends w'.first.store
  second_extends : w.second.store.Extends w'.second.store
  pairs : ∀ {e e'}, w.pairs e e' → w'.pairs e e'
  pairs_of_first : ∀ {e e'}, w.first.store.HasEnv e → w'.pairs e e' → w.pairs e e'
  pairs_of_second : ∀ {e e'}, w.second.store.HasEnv e' → w'.pairs e e' → w.pairs e e'

/-- Later states of runs that are at the same places again. -/
structure World.Advances (w w' : World) : Prop extends w.Precedes w' where
  first_current : w'.first.current = w.first.current
  second_current : w'.second.current = w.second.current

section Later

variable {T : Tables} {w w' w₁ w₂ w₃ : World} {inner P : Layers} {e e' : EnvId}

theorem World.Precedes.trans (h₁ : w₁.Precedes w₂) (h₂ : w₂.Precedes w₃) : w₁.Precedes w₃ where
  first_globals := h₂.first_globals.trans h₁.first_globals
  second_globals := h₂.second_globals.trans h₁.second_globals
  first_extends := h₁.first_extends.trans h₂.first_extends
  second_extends := h₁.second_extends.trans h₂.second_extends
  pairs h := h₂.pairs (h₁.pairs h)
  pairs_of_first he h := h₁.pairs_of_first he (h₂.pairs_of_first (h₁.first_extends.hasEnv he) h)
  pairs_of_second he h :=
    h₁.pairs_of_second he (h₂.pairs_of_second (h₁.second_extends.hasEnv he) h)

/-- Stores may grow while the same scopes correspond. -/
theorem World.Advances.of_extends {w : World} {t t' : State}
    (hglobals : t.globals = w.first.globals) (hglobals' : t'.globals = w.second.globals)
    (h : w.first.store.Extends t.store) (h' : w.second.store.Extends t'.store)
    (hcurrent : t.current = w.first.current) (hcurrent' : t'.current = w.second.current) :
    w.Advances ⟨t, t', w.pairs⟩ :=
  ⟨⟨hglobals, hglobals', h, h', id, fun _ => id, fun _ => id⟩, hcurrent, hcurrent'⟩

theorem World.Advances.refl (w : World) : w.Advances w :=
  .of_extends rfl rfl (.refl _) (.refl _) rfl rfl

theorem World.Advances.trans (h₁ : w₁.Advances w₂) (h₂ : w₂.Advances w₃) : w₁.Advances w₃ :=
  ⟨h₁.toPrecedes.trans h₂.toPrecedes, h₂.first_current.trans h₁.first_current,
    h₂.second_current.trans h₁.second_current⟩

theorem World.Chains.mono (h : w.Chains P e e') (hw : w.Precedes w') : w'.Chains P e e' := by
  induction P generalizing e e' with
  | nil => exact ⟨h.1.trans hw.first_globals.symm, h.2.trans hw.second_globals.symm⟩
  | cons layer P ih =>
      have hfirst {outer : EnvId} (h : w.first.store.enclosing? e = some outer) :
          w'.first.store.enclosing? e = some outer :=
        (hw.first_extends.enclosing (Store.hasEnv_of_enclosing? h)).trans h
      have hsecond {outer' : EnvId} (h : w.second.store.enclosing? e' = some outer') :
          w'.second.store.enclosing? e' = some outer' :=
        (hw.second_extends.enclosing (Store.hasEnv_of_enclosing? h)).trans h
      cases layer with
      | both =>
          obtain ⟨hpairs, outer, outer', houter, houter', hrest⟩ := h
          exact ⟨hw.pairs hpairs, outer, outer', hfirst houter, hsecond houter', ih hrest⟩
      | first =>
          obtain ⟨halone, outer, houter, hrest⟩ := h
          have he := Store.hasEnv_of_enclosing? houter
          exact ⟨fun f' hf => halone f' (hw.pairs_of_first he hf), outer, hfirst houter, ih hrest⟩
      | second =>
          obtain ⟨halone, outer', houter', hrest⟩ := h
          have he := Store.hasEnv_of_enclosing? houter'
          exact ⟨fun f hf => halone f (hw.pairs_of_second he hf), outer', hsecond houter', ih hrest⟩

theorem Function.Alike.mono {f f' : Function} (h : Function.Alike T w inner f f')
    (hw : w.Precedes w') : Function.Alike T w' inner f f' := by
  cases h with
  | mk hchains hmeet hd => exact .mk (hchains.mono hw) hmeet hd

theorem Methods.Alike.mono {find find' : String → Option Function}
    (h : Methods.Alike T w find find') (hw : w.Precedes w') : Methods.Alike T w' find find' :=
  fun x => (h x).imp fun _ _ hf => hf.mono hw

theorem Class.Alike.mono {c c' : Class} (h : Class.Alike T w c c') (hw : w.Precedes w') :
    Class.Alike T w' c c' := ⟨h.id_eq, h.name_eq, h.methods.mono hw⟩

theorem Value.Alike.mono {v v' : Value} (h : Value.Alike T w v v') (hw : w.Precedes w') :
    Value.Alike T w' v v' := by
  cases h with
  | nil => exact .nil
  | bool => exact .bool
  | number => exact .number
  | string => exact .string
  | native => exact .native
  | function hf => exact .function (hf.mono hw)
  | cls hc => exact .cls (hc.mono hw)
  | object hc => exact .object (hc.mono hw)

end Later

section Observed

variable {T : Tables} {w : World} {inner : Layers} {v v' : Value}

theorem Function.Alike.resembles {f f' : Function} (h : Function.Alike T w inner f f') :
    f.Resembles f' := by
  cases h with
  | mk _ _ _ => exact ⟨rfl, by simp [Function.name], by simp [Function.arity]⟩

theorem Class.Alike.resembles {c c' : Class} (h : Class.Alike T w c c') : c.Resembles c' where
  id_eq := h.id_eq
  name_eq := h.name_eq
  arity_eq := Class.arity_eq_of_initializer (h.methods initializerName) fun _ _ hf =>
    hf.resembles.arity_eq

/-- Values that are alike look the same. -/
theorem Value.Alike.resembles (h : Value.Alike T w v v') : v.Resembles v' := by
  cases h with
  | nil => exact .nil
  | bool => exact .bool
  | number => exact .number
  | string => exact .string
  | native => exact .native
  | function hf => exact .function hf.resembles
  | cls hc => exact .cls hc.resembles
  | object hc => exact .object hc.resembles

/-- A value in which there is no function is alike to itself. -/
theorem Value.alike_of_plain (h : v.IsPlain) : Value.Alike T w v v := by
  cases h <;> constructor

/-- Declarations that make methods that are alike make classes that are, given those of a
superclass. -/
theorem Class.Alike.extending {id : Identity} {name : String} {methods methods' : Bindings Function}
    {parent parent' : Option Class} (h : Methods.Alike T w methods.get? methods'.get?)
    (hparent : Option.Rel (Class.Alike T w) parent parent') :
    Class.Alike T w (.extending ⟨id, name, methods⟩ parent)
      (.extending ⟨id, name, methods'⟩ parent') := by
  have hmethods : Methods.Alike T w (Class.extending ⟨id, name, methods⟩ parent).findMethod?
      (Class.extending ⟨id, name, methods'⟩ parent').findMethod? := fun x =>
    Class.rel_findMethod?_extending (h x) (hparent.imp fun _ _ hc => hc.methods x)
  cases hparent <;> exact ⟨rfl, rfl, hmethods⟩

end Observed

end ScopedScript
