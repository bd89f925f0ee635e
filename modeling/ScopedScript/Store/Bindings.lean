/-!
# Names bound to values

A table that binds each name to at most one value, in the order in which the names were first bound.
-/

namespace ScopedScript

/-- Names bound to values. -/
inductive Bindings (α : Type) where
  | empty
  | bind (name : String) (value : α) (rest : Bindings α)
  deriving Inhabited

namespace Bindings

variable {α : Type}

/-- The value that a name is bound to. -/
def get? : Bindings α → String → Option α
  | empty, _ => none
  | bind name value rest, wanted => if name = wanted then some value else rest.get? wanted

/-- Bind a name to a value, in place of the value that it was bound to. -/
def insert : Bindings α → String → α → Bindings α
  | empty, name, value => bind name value empty
  | bind name value rest, new, newValue =>
    if name = new then bind name newValue rest else bind name value (rest.insert new newValue)

@[simp] theorem get?_empty (name : String) : (empty : Bindings α).get? name = none := rfl

@[simp] theorem get?_insert (b : Bindings α) (new name : String) (value : α) :
    (b.insert new value).get? name = if new = name then some value else b.get? name := by
  induction b with
  | empty => rfl
  | bind first v rest ih =>
    by_cases hfirst : first = new
    · subst hfirst
      by_cases h : first = name <;> simp [insert, get?, h]
    · by_cases h : first = name
      · subst h
        simp [insert, get?, hfirst, Ne.symm hfirst]
      · simp [insert, get?, hfirst, h, ih]

end Bindings

end ScopedScript
