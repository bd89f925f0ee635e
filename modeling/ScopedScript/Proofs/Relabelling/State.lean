import ScopedScript.Eval.Basic
import ScopedScript.Proofs.Relabelling.Syntax

/-!
# States under other numbers and lines

Functions keep the text of their declaration, so a state in which references have other numbers and
words stand on other lines is one in which the declarations are changed. Nothing that a value shows
or is compared by is changed with them, and every operation on the store commutes with the change.
-/

namespace ScopedScript

/-- A table in which each value is changed by `f`. -/
def Bindings.map {α β : Type} (f : α → β) : Bindings α → Bindings β
  | empty => empty
  | bind name value rest => bind name (f value) (rest.map f)

section Definitions

variable (g : Relabelling)

/-- A function whose text has other numbers and lines. -/
def Function.relabel (f : Function) : Function := { f with declaration := f.declaration.relabel g }

/-- A class declaration whose text has other numbers and lines. -/
def ClassLayer.relabel (layer : ClassLayer) : ClassLayer :=
  { layer with methods := layer.methods.map (Function.relabel g) }

/-- A class whose text has other numbers and lines. -/
def Class.relabel (c : Class) : Class :=
  ⟨c.own.relabel g, c.inherited.map (ClassLayer.relabel g)⟩

/-- An object of a class whose text has other numbers and lines. -/
def Object.relabel (o : Object) : Object := { o with cls := o.cls.relabel g }

/-- A value whose text, if it has one, has other numbers and lines. -/
def Value.relabel : Value → Value
  | .nil => .nil
  | .bool value => .bool value
  | .number value => .number value
  | .string text => .string text
  | .function f => .function (f.relabel g)
  | .cls c => .cls (c.relabel g)
  | .native f => .native f
  | .object o => .object (o.relabel g)

/-- A scope whose values have other numbers and lines. -/
def Env.relabel (env : Env) : Env := { env with bindings := env.bindings.map (Value.relabel g) }

/-- A store whose values have other numbers and lines. -/
def Store.relabel (s : Store) : Store :=
  ⟨s.envs.map (Env.relabel g), s.fields.map (Bindings.map (Value.relabel g))⟩

/-- A state whose values have other numbers and lines, and in which other distances are known. -/
def State.relabel (D : Distances) (s : State) : State :=
  { s with store := s.store.relabel g, lastValue := s.lastValue.relabel g, distances := D }

end Definitions

namespace Bindings

variable {α β γ : Type} (f : α → β)

@[simp] theorem get?_map (b : Bindings α) (name : String) :
    (b.map f).get? name = (b.get? name).map f := by
  induction b with
  | empty => rfl
  | bind first value rest ih =>
      unfold map get?
      split
      · rfl
      · exact ih

@[simp] theorem map_insert (b : Bindings α) (name : String) (value : α) :
    (b.insert name value).map f = (b.map f).insert name (f value) := by
  induction b with
  | empty => rfl
  | bind first v rest ih =>
      by_cases h : first = name
      · simp [insert, map, h]
      · simp [insert, map, h, ih]

theorem map_map (h : β → γ) (b : Bindings α) : (b.map f).map h = b.map (h ∘ f) := by
  induction b with
  | empty => rfl
  | bind name value rest ih => exact congrArg (bind name _) ih

end Bindings

variable {g : Relabelling}

section Values

@[simp] theorem FunctionDecl.name_relabel (d : FunctionDecl) :
    (d.relabel g).name = d.name.relabel g := by
  cases d
  rfl

@[simp] theorem FunctionDecl.parameters_relabel (d : FunctionDecl) :
    (d.relabel g).parameters = d.parameters.map (Name.relabel g) := by
  cases d
  rfl

@[simp] theorem FunctionDecl.body_relabel (d : FunctionDecl) :
    (d.relabel g).body = Stmt.relabelAll g d.body := by
  cases d
  rfl

@[simp] theorem Name.text_relabel (name : Name) : (name.relabel g).text = name.text := rfl

@[simp] theorem Function.name_relabel (f : Function) : (f.relabel g).name = f.name := by
  simp [Function.name, Function.relabel]

@[simp] theorem Function.arity_relabel (f : Function) : (f.relabel g).arity = f.arity := by
  simp [Function.arity, Function.relabel]

@[simp] theorem Class.findMethod?_relabel (c : Class) (name : String) :
    (c.relabel g).findMethod? name = (c.findMethod? name).map (Function.relabel g) := by
  have hlayers (layers : List ClassLayer) :
      ((layers.map (ClassLayer.relabel g)).findSome? fun layer => layer.methods.get? name) =
        (layers.findSome? fun layer => layer.methods.get? name).map (Function.relabel g) := by
    induction layers with
    | nil => rfl
    | cons layer layers ih =>
        simp only [List.map_cons, List.findSome?_cons, ClassLayer.relabel, Bindings.get?_map]
        cases layer.methods.get? name with
        | none => exact ih
        | some method => rfl
  exact hlayers (c.own :: c.inherited)

@[simp] theorem Class.arity_relabel (c : Class) : (c.relabel g).arity = c.arity := by
  unfold Class.arity
  rw [findMethod?_relabel]
  cases c.findMethod? initializerName with
  | none => rfl
  | some method => exact method.arity_relabel

theorem Class.relabel_extending (own : ClassLayer) (parent : Option Class) :
    (Class.extending own parent).relabel g =
      .extending (own.relabel g) (parent.map (Class.relabel g)) := by
  cases parent <;> rfl

@[simp] theorem Value.isTruthy_relabel (v : Value) : (v.relabel g).isTruthy = v.isTruthy := by
  cases v <;> rfl

@[simp] theorem Value.equal_relabel (v w : Value) :
    (v.relabel g).equal (w.relabel g) = v.equal w := by
  cases v <;> cases w <;> rfl

@[simp] theorem Value.render_relabel (v : Value) : (v.relabel g).render = v.render := by
  cases v with
  | function f => simp [Value.relabel, Value.render]
  | _ => rfl

@[simp] theorem Literal.relabel_value (value : Literal) :
    value.value.relabel g = value.value := by
  cases value <;> rfl

theorem UnaryOp.apply_relabel (op : UnaryOp) (v : Value) :
    op.apply (v.relabel g) = (op.apply v).map (Value.relabel g) := by
  cases op with
  | negate => cases v <;> rfl
  | not => exact congrArg (fun b => Except.ok (Value.bool !b)) v.isTruthy_relabel

theorem BinaryOp.apply_relabel (op : BinaryOp) (v w : Value) :
    op.apply (v.relabel g) (w.relabel g) = (op.apply v w).map (Value.relabel g) := by
  cases op with
  | equal => exact congrArg (fun b => Except.ok (Value.bool b)) (v.equal_relabel w)
  | notEqual => exact congrArg (fun b => Except.ok (Value.bool !b)) (v.equal_relabel w)
  | _ => cases v <;> cases w <;> rfl

theorem LogicalOp.decides_relabel (op : LogicalOp) (v : Value) :
    op.decides (v.relabel g) = op.decides v := by
  cases op <;> simp [LogicalOp.decides]

end Values

/-- What changes an entry of an array commutes with what is done to all of them. -/
theorem map_modify {α β : Type} (h : α → β) (f : α → α) (f' : β → β)
    (hf : ∀ a, h (f a) = f' (h a)) (xs : Array α) (i : Nat) :
    (xs.modify i f).map h = (xs.map h).modify i f' := by
  apply Array.ext_getElem?
  intro j
  simp only [Array.getElem?_map, Array.getElem?_modify]
  by_cases hij : i = j
  · simp only [hij, if_true]
    cases xs[j]? with
    | none => rfl
    | some a => exact congrArg some (hf a)
  · simp only [hij, if_false]

namespace Store

variable (s : Store)

@[simp] theorem nextEnv_relabel : (s.relabel g).nextEnv = s.nextEnv := Array.size_map

@[simp] theorem nextObject_relabel : (s.relabel g).nextObject = s.nextObject := Array.size_map

@[simp] theorem relabel_addEnv (enclosing : Option EnvId) :
    (s.addEnv enclosing).relabel g = (s.relabel g).addEnv enclosing := by
  simp [addEnv, relabel, Env.relabel, Bindings.map]

@[simp] theorem relabel_addObject : s.addObject.relabel g = (s.relabel g).addObject := by
  simp [addObject, relabel, Bindings.map]

@[simp] theorem enclosing?_relabel (e : EnvId) :
    (s.relabel g).enclosing? e = s.enclosing? e := by
  unfold enclosing? relabel
  rw [Array.getElem?_map]
  cases s.envs[e]? <;> rfl

@[simp] theorem binding?_relabel (e : EnvId) (name : String) :
    (s.relabel g).binding? e name = (s.binding? e name).map (Value.relabel g) := by
  unfold binding? relabel
  rw [Array.getElem?_map]
  cases s.envs[e]? with
  | none => rfl
  | some env => exact Bindings.get?_map _ env.bindings name

@[simp] theorem relabel_define (e : EnvId) (name : String) (value : Value) :
    (s.define e name value).relabel g = (s.relabel g).define e name (value.relabel g) := by
  have henvs := map_modify (Env.relabel g)
    (fun env => { env with bindings := env.bindings.insert name value })
    (fun env => { env with bindings := env.bindings.insert name (value.relabel g) })
    (fun env => congrArg (Env.mk · _) (env.bindings.map_insert _ name value)) s.envs e
  exact congrArg (Store.mk · _) henvs

@[simp] theorem relabel_defineAll (e : EnvId) (names : List String) (values : List Value) :
    (s.defineAll e names values).relabel g =
      (s.relabel g).defineAll e names (values.map (Value.relabel g)) := by
  induction names generalizing s values with
  | nil => rfl
  | cons name names ih =>
      cases values with
      | nil => rfl
      | cons value values => exact (ih _ values).trans (by rw [relabel_define]; rfl)

theorem binderWithin?_relabel (name : String) (fuel : Nat) (e : EnvId) :
    (s.relabel g).binderWithin? name fuel e = s.binderWithin? name fuel e := by
  induction fuel generalizing e with
  | zero => rfl
  | succ fuel ih =>
      unfold binderWithin?
      simp only [binding?_relabel, Option.isSome_map, enclosing?_relabel]
      split
      · rfl
      · cases s.enclosing? e with
        | none => rfl
        | some outer => exact ih outer

@[simp] theorem binder?_relabel (e : EnvId) (name : String) :
    (s.relabel g).binder? e name = s.binder? e name := s.binderWithin?_relabel name (e + 1) e

@[simp] theorem lookup?_relabel (e : EnvId) (name : String) :
    (s.relabel g).lookup? e name = (s.lookup? e name).map (Value.relabel g) := by
  unfold lookup?
  rw [binder?_relabel]
  cases s.binder? e name with
  | none => rfl
  | some binder => exact s.binding?_relabel binder name

@[simp] theorem ancestor?_relabel (e : EnvId) (distance : Nat) :
    (s.relabel g).ancestor? e distance = s.ancestor? e distance := by
  induction distance generalizing e with
  | zero => rfl
  | succ distance ih =>
      unfold ancestor?
      rw [enclosing?_relabel]
      cases s.enclosing? e with
      | none => rfl
      | some outer => exact ih outer

theorem lookupAt_relabel (e : EnvId) (distance : Nat) (name : String) :
    (s.relabel g).lookupAt e distance name =
      (s.lookupAt e distance name).map (Value.relabel g) := by
  unfold lookupAt
  rw [ancestor?_relabel]
  cases s.ancestor? e distance with
  | none => rfl
  | some target =>
      simp only [binding?_relabel]
      cases s.binding? target name <;> rfl

@[simp] theorem field?_relabel (o : ObjectId) (name : String) :
    (s.relabel g).field? o name = (s.field? o name).map (Value.relabel g) := by
  unfold field? relabel
  rw [Array.getElem?_map]
  cases s.fields[o]? with
  | none => rfl
  | some fields => exact Bindings.get?_map _ fields name

@[simp] theorem relabel_setField (o : ObjectId) (name : String) (value : Value) :
    (s.setField o name value).relabel g = (s.relabel g).setField o name (value.relabel g) := by
  have hfields := map_modify (Bindings.map (Value.relabel g))
    (fun fields => fields.insert name value)
    (fun fields => fields.insert name (value.relabel g))
    (fun fields => fields.map_insert _ name value) s.fields o
  exact congrArg (Store.mk _ ·) hfields

end Store

section Fields

variable (s : State) (D : Distances)

@[simp] theorem State.store_relabel : (s.relabel g D).store = s.store.relabel g := rfl

@[simp] theorem State.globals_relabel : (s.relabel g D).globals = s.globals := rfl

@[simp] theorem State.current_relabel : (s.relabel g D).current = s.current := rfl

@[simp] theorem State.distances_relabel : (s.relabel g D).distances = D := rfl

@[simp] theorem Object.id_relabel (o : Object) : (o.relabel g).id = o.id := rfl

@[simp] theorem Object.cls_relabel (o : Object) : (o.relabel g).cls = o.cls.relabel g := rfl

end Fields

/-- No function is known before anything has been run. -/
theorem State.relabel_initial (host : Host) (sink : Sink) :
    (State.initial host sink).relabel g ∅ = .initial host sink := by
  have hempty : Store.empty.relabel g = Store.empty := by simp [Store.empty, Store.relabel]
  simp [State.relabel, State.initial, Value.relabel, hempty]

section Composition

open Relabelling (Composes)

variable {h k : Relabelling} (hgh : Composes (fun _ => True) g h k)

include hgh

theorem Function.relabel_relabel (f : Function) : (f.relabel g).relabel h = f.relabel k := by
  simp only [Function.relabel, f.declaration.relabel_relabel hgh fun _ _ => trivial]

theorem ClassLayer.relabel_relabel (layer : ClassLayer) :
    (layer.relabel g).relabel h = layer.relabel k := by
  have hmethods : Function.relabel h ∘ Function.relabel g = Function.relabel k :=
    funext fun f => f.relabel_relabel hgh
  simp only [ClassLayer.relabel, Bindings.map_map, hmethods]

theorem Class.relabel_relabel (c : Class) : (c.relabel g).relabel h = c.relabel k := by
  have hlayers : ClassLayer.relabel h ∘ ClassLayer.relabel g = ClassLayer.relabel k :=
    funext fun layer => layer.relabel_relabel hgh
  simp only [Class.relabel, c.own.relabel_relabel hgh, List.map_map, hlayers]

theorem Value.relabel_relabel (v : Value) : (v.relabel g).relabel h = v.relabel k := by
  cases v with
  | nil | bool _ | number _ | string _ | native _ => rfl
  | function f => exact congrArg Value.function (f.relabel_relabel hgh)
  | cls c => exact congrArg Value.cls (c.relabel_relabel hgh)
  | object o => exact congrArg (fun c => Value.object ⟨o.id, c⟩) (o.cls.relabel_relabel hgh)

theorem Store.relabel_relabel (s : Store) : (s.relabel g).relabel h = s.relabel k := by
  have hvalues : Value.relabel h ∘ Value.relabel g = Value.relabel k :=
    funext fun v => v.relabel_relabel hgh
  have henvs : Env.relabel h ∘ Env.relabel g = Env.relabel k := by
    funext env
    simp only [Function.comp_apply, Env.relabel, Bindings.map_map, hvalues]
  have hfields : Bindings.map (Value.relabel h) ∘ Bindings.map (Value.relabel g) =
      Bindings.map (Value.relabel k) := by
    funext fields
    simp only [Function.comp_apply, Bindings.map_map, hvalues]
  simp only [Store.relabel, Array.map_map, henvs, hfields]

/-- A state in which numbers and lines are changed twice is one in which they are changed once. -/
theorem State.relabel_relabel (s : State) (D D' : Distances) :
    (s.relabel g D).relabel h D' = s.relabel k D' := by
  simp only [State.relabel, s.store.relabel_relabel hgh, s.lastValue.relabel_relabel hgh]

end Composition

end ScopedScript
