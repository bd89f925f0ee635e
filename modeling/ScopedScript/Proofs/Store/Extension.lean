import ScopedScript.Store.Basic

/-!
# How stores grow

What the operations on stores do to the scopes and to the fields of objects, seen through the names
that scopes bind and the links between scopes. No operation takes a scope away, changes the scope
that encloses another one or unbinds a name.
-/

namespace ScopedScript

namespace Store

variable {st st₁ st₂ st₃ : Store} {e e' : EnvId} {o o' : ObjectId} {x y : String} {v : Value}

/-- There is a scope of a given number. -/
def HasEnv (st : Store) (e : EnvId) : Prop := e < st.envs.size

instance : Decidable (st.HasEnv e) := inferInstanceAs (Decidable (e < st.envs.size))

/-- There is an object of a given number. -/
def HasObject (st : Store) (o : ObjectId) : Prop := o < st.fields.size

instance : Decidable (st.HasObject o) := inferInstanceAs (Decidable (o < st.fields.size))

/-- A scope binds a name. -/
def Binds (st : Store) (e : EnvId) (x : String) : Prop := (st.binding? e x).isSome = true

theorem binds_iff : st.Binds e x ↔ ∃ v, st.binding? e x = some v := Option.isSome_iff_exists

/-- A scope that binds a name is the nearest one of its chain to do so. -/
theorem binder?_of_binds (h : st.Binds e x) : st.binder? e x = some e := by
  unfold binder? binderWithin?
  exact if_pos h

/-- From a scope that no other one encloses, names are looked up in that scope alone. -/
theorem binder?_of_outermost (h : st.enclosing? e = none) :
    st.binder? e x = if (st.binding? e x).isSome then some e else none := by
  unfold binder? binderWithin?
  rw [h, Option.bind_none]

theorem lookup?_of_outermost (h : st.enclosing? e = none) :
    st.lookup? e x = st.binding? e x := by
  unfold lookup?
  rw [binder?_of_outermost h]
  cases hbinding : st.binding? e x with
  | none => rfl
  | some v => exact hbinding

theorem hasEnv_of_enclosing? (h : st.enclosing? e = some e') : st.HasEnv e := by
  unfold enclosing? at h
  cases henv : st.envs[e]? with
  | none => simp [henv] at h
  | some env => exact (Array.getElem?_eq_some_iff.mp henv).1

theorem hasEnv_of_binding? (h : st.binding? e x = some v) : st.HasEnv e := by
  unfold binding? at h
  obtain ⟨env, henv, _⟩ := Option.bind_eq_some_iff.mp h
  exact (Array.getElem?_eq_some_iff.mp henv).1

theorem hasObject_of_field? (h : st.field? o x = some v) : st.HasObject o := by
  unfold field? at h
  obtain ⟨fields, hfields, _⟩ := Option.bind_eq_some_iff.mp h
  exact (Array.getElem?_eq_some_iff.mp hfields).1

theorem binding?_define : (st.define e x v).binding? e' y =
    if e = e' ∧ x = y ∧ st.HasEnv e then some v else st.binding? e' y := by
  unfold define binding? HasEnv
  simp only [Array.getElem?_modify]
  by_cases he : e = e'
  · subst he
    by_cases hsize : e < st.envs.size
    · rw [Array.getElem?_eq_getElem hsize]
      by_cases hx : x = y <;> simp [hx, hsize]
    · simp [hsize]
  · simp [he]

theorem binding?_define_self (he : st.HasEnv e) : (st.define e x v).binding? e x = some v := by
  rw [binding?_define, if_pos ⟨rfl, rfl, he⟩]

theorem enclosing?_define : (st.define e x v).enclosing? e' = st.enclosing? e' := by
  unfold define enclosing?
  simp only [Array.getElem?_modify]
  by_cases he : e = e'
  · subst he
    cases st.envs[e]? <;> simp
  · simp [he]

theorem nextEnv_define : (st.define e x v).nextEnv = st.nextEnv := Array.size_modify

theorem nextEnv_addEnv {outer : Option EnvId} : (st.addEnv outer).nextEnv = st.nextEnv + 1 :=
  Array.size_push _

theorem nextObject_addObject : st.addObject.nextObject = st.nextObject + 1 := Array.size_push _

theorem nextObject_setField : (st.setField o x v).nextObject = st.nextObject := Array.size_modify

theorem hasEnv_define : (st.define e x v).HasEnv e' ↔ st.HasEnv e' := by
  simp [HasEnv, define]

theorem binding?_addEnv {outer : Option EnvId} :
    (st.addEnv outer).binding? e x = st.binding? e x := by
  unfold addEnv binding?
  rw [Array.getElem?_push]
  by_cases he : e = st.envs.size
  · subst he
    simp
  · simp [he]

theorem binding?_nextEnv : st.binding? st.nextEnv x = none := by
  unfold binding? nextEnv
  rw [Array.getElem?_size, Option.bind_none]

theorem enclosing?_addEnv {outer : Option EnvId} : (st.addEnv outer).enclosing? e =
    if e = st.nextEnv then outer else st.enclosing? e := by
  unfold addEnv enclosing? nextEnv
  rw [Array.getElem?_push]
  by_cases he : e = st.envs.size <;> simp [he]

theorem enclosing?_addEnv_nextEnv {outer : Option EnvId} :
    (st.addEnv outer).enclosing? st.nextEnv = outer := by
  rw [enclosing?_addEnv, if_pos rfl]

theorem hasEnv_addEnv {outer : Option EnvId} (h : st.HasEnv e) : (st.addEnv outer).HasEnv e := by
  unfold HasEnv addEnv at *
  rw [Array.size_push]
  exact Nat.lt_succ_of_lt h

theorem hasEnv_nextEnv {outer : Option EnvId} : (st.addEnv outer).HasEnv st.nextEnv := by
  unfold HasEnv addEnv nextEnv
  rw [Array.size_push]
  exact Nat.lt_succ_self _

theorem field?_addObject : st.addObject.field? o y = st.field? o y := by
  unfold addObject field?
  rw [Array.getElem?_push]
  by_cases ho : o = st.fields.size
  · subst ho
    simp
  · simp [ho]

theorem field?_setField : (st.setField o x v).field? o' y =
    if o = o' ∧ x = y ∧ st.HasObject o then some v else st.field? o' y := by
  unfold setField field? HasObject
  simp only [Array.getElem?_modify]
  by_cases ho : o = o'
  · subst ho
    by_cases hsize : o < st.fields.size
    · rw [Array.getElem?_eq_getElem hsize]
      by_cases hx : x = y <;> simp [hx, hsize]
    · simp [hsize]
  · simp [ho]

theorem hasObject_addObject (h : st.HasObject o) : st.addObject.HasObject o := by
  unfold HasObject addObject at *
  rw [Array.size_push]
  exact Nat.lt_succ_of_lt h

theorem hasObject_nextObject : st.addObject.HasObject st.nextObject := by
  unfold HasObject addObject nextObject
  rw [Array.size_push]
  exact Nat.lt_succ_self _

theorem hasObject_setField : (st.setField o x v).HasObject o' ↔ st.HasObject o' := by
  simp [HasObject, setField]

/-- Everything that there is in one store is still there in another one, with the same links, though
perhaps with other values. -/
structure Extends (st st' : Store) : Prop where
  hasEnv : ∀ {e : EnvId}, st.HasEnv e → st'.HasEnv e
  enclosing : ∀ {e : EnvId}, st.HasEnv e → st'.enclosing? e = st.enclosing? e
  binds : ∀ {e : EnvId} {x : String}, st.Binds e x → st'.Binds e x

namespace Extends

theorem refl (st : Store) : st.Extends st := ⟨id, fun _ => rfl, id⟩

theorem trans (h₁ : st₁.Extends st₂) (h₂ : st₂.Extends st₃) : st₁.Extends st₃ where
  hasEnv he := h₂.hasEnv (h₁.hasEnv he)
  enclosing he := (h₂.enclosing (h₁.hasEnv he)).trans (h₁.enclosing he)
  binds hx := h₂.binds (h₁.binds hx)

theorem define : st.Extends (st.define e x v) where
  hasEnv he := hasEnv_define.mpr he
  enclosing _ := enclosing?_define
  binds {e' y} hy := by
    unfold Binds
    rw [binding?_define]
    by_cases h : e = e' ∧ x = y ∧ st.HasEnv e
    · rw [if_pos h]
      rfl
    · rw [if_neg h]
      exact hy

theorem defineAll {names : List String} {values : List Value} :
    st.Extends (st.defineAll e names values) := by
  induction names generalizing st values with
  | nil => exact refl st
  | cons name names ih =>
      cases values with
      | nil => exact refl st
      | cons value values => exact define.trans ih

theorem addEnv {outer : Option EnvId} : st.Extends (st.addEnv outer) where
  hasEnv := hasEnv_addEnv
  enclosing {e'} he := by
    have hne : e' ≠ st.nextEnv := Nat.ne_of_lt he
    rw [enclosing?_addEnv, if_neg hne]
  binds hx := by
    unfold Binds
    rwa [binding?_addEnv]

theorem addObject : st.Extends st.addObject := ⟨id, fun _ => rfl, id⟩

theorem setField : st.Extends (st.setField o x v) := ⟨id, fun _ => rfl, id⟩

end Extends

end Store

end ScopedScript
