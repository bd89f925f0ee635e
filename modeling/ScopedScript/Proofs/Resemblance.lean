import ScopedScript.Eval.Operators
import ScopedScript.Proofs.Related

/-!
# Values that look the same

Functions and classes are shown by their names and compared by their identities. So two runs that
differ in the text or in the scopes of their functions compute values that show the same, and no
operator tells one value from the other.
-/

namespace ScopedScript

/-- Functions that are told apart by nothing but what their calls do. -/
structure Function.Resembles (f f' : Function) : Prop where
  id_eq : f'.id = f.id
  name_eq : f'.name = f.name
  arity_eq : f'.arity = f.arity

/-- Classes that are told apart by nothing but what their methods do. -/
structure Class.Resembles (c c' : Class) : Prop where
  id_eq : c'.own.id = c.own.id
  name_eq : c'.name = c.name
  arity_eq : c'.arity = c.arity

/-- Values that are told apart by nothing but what their calls and methods do. -/
inductive Value.Resembles : Value → Value → Prop where
  | nil : Value.Resembles .nil .nil
  | bool {value} : Value.Resembles (.bool value) (.bool value)
  | number {value} : Value.Resembles (.number value) (.number value)
  | string {text} : Value.Resembles (.string text) (.string text)
  | native {f} : Value.Resembles (.native f) (.native f)
  | function {f f'} : f.Resembles f' → Value.Resembles (.function f) (.function f')
  | cls {c c'} : c.Resembles c' → Value.Resembles (.cls c) (.cls c')
  | object {id c c'} : c.Resembles c' → Value.Resembles (.object ⟨id, c⟩) (.object ⟨id, c'⟩)

section Classes

variable {R : Function → Function → Prop} {c c' : Class}

/-- Classes want as many arguments as their initializers. -/
theorem Class.arity_eq_of_initializer
    (h : Option.Rel R (c.findMethod? initializerName) (c'.findMethod? initializerName))
    (hR : ∀ f f', R f f' → f'.arity = f.arity) : c'.arity = c.arity := by
  unfold Class.arity
  cases hmethod : c.findMethod? initializerName with
  | none => rw [h.eq_none hmethod]
  | some f =>
      obtain ⟨f', hmethod', hf⟩ := h.exists_of_eq_some hmethod
      rw [hmethod']
      exact hR f f' hf

/-- Where the own methods of two classes are related and the inherited ones are, all are. -/
theorem Class.rel_findMethod?_extending {own own' : ClassLayer} {parent parent' : Option Class}
    {x : String} (h : Option.Rel R (own.methods.get? x) (own'.methods.get? x))
    (hparent : Option.Rel (fun c c' => Option.Rel R (c.findMethod? x) (c'.findMethod? x))
      parent parent') :
    Option.Rel R ((Class.extending own parent).findMethod? x)
      ((Class.extending own' parent').findMethod? x) := by
  rw [findMethod?_extending, findMethod?_extending]
  -- a method of the class itself hides the inherited one in both, and if neither has one the
  -- superclasses decide
  cases hmethod : own.methods.get? x with
  | none =>
      rw [h.eq_none hmethod]
      cases hparent with
      | none => exact .none
      | some hc => exact hc
  | some f =>
      obtain ⟨f', hmethod', hf⟩ := h.exists_of_eq_some hmethod
      rw [hmethod']
      exact .some hf

end Classes

namespace Value.Resembles

variable {v v' w w' : Value}

/-- Values that resemble each other show the same. -/
theorem render_eq (h : v.Resembles v') : v'.render = v.render := by
  cases h with
  | function hf => simp only [Value.render, hf.name_eq]
  | cls hc | object hc => simp only [Value.render, hc.name_eq]
  | _ => rfl

theorem isTruthy_eq (h : v.Resembles v') : v'.isTruthy = v.isTruthy := by
  cases h <;> rfl

theorem equal_eq (h : v.Resembles v') (h' : w.Resembles w') : v'.equal w' = v.equal w := by
  cases h with
  | function hf =>
      cases h' with
      | function hf' => simp only [Value.equal, hf.id_eq, hf'.id_eq]
      | _ => rfl
  | cls hc =>
      cases h' with
      | cls hc' => simp only [Value.equal, hc.id_eq, hc'.id_eq]
      | _ => rfl
  | _ => cases h' <;> rfl

theorem unary_eq (h : v.Resembles v') (op : UnaryOp) : op.apply v' = op.apply v := by
  cases op with
  | negate => cases h <;> rfl
  | not => simp only [UnaryOp.apply, h.isTruthy_eq]

/-- An operation has the same result for values that resemble each other. -/
theorem binary_eq (h : v.Resembles v') (h' : w.Resembles w') (op : BinaryOp) :
    op.apply v' w' = op.apply v w := by
  by_cases hequal : op = .equal
  · simp only [hequal, BinaryOp.apply, h.equal_eq h']
  by_cases hnotEqual : op = .notEqual
  · simp only [hnotEqual, BinaryOp.apply, h.equal_eq h']
  · cases op <;> first | contradiction | cases h <;> cases h' <;> rfl

theorem decides_eq (h : v.Resembles v') (op : LogicalOp) : op.decides v' = op.decides v := by
  cases op <;> simp only [LogicalOp.decides, h.isTruthy_eq]

end Value.Resembles

/-- A value in which there is no function, class or object. -/
inductive Value.IsPlain : Value → Prop where
  | nil : Value.IsPlain .nil
  | bool {value} : Value.IsPlain (.bool value)
  | number {value} : Value.IsPlain (.number value)
  | string {text} : Value.IsPlain (.string text)

theorem UnaryOp.isPlain_apply {op : UnaryOp} {v w : Value} (h : op.apply v = .ok w) :
    w.IsPlain := by
  cases op with
  | not =>
      cases h
      exact .bool
  | negate =>
      cases v with
      | number x =>
          cases h
          exact .number
      | _ => cases h

theorem BinaryOp.isPlain_apply {op : BinaryOp} {v w u : Value} (h : op.apply v w = .ok u) :
    u.IsPlain := by
  cases op <;> cases v <;> cases w <;> cases h <;> constructor

theorem Literal.isPlain_value (l : Literal) : l.value.IsPlain := by
  cases l <;> constructor

end ScopedScript
