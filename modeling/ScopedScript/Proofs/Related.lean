/-!
# Optional values that are related

What two runs find where one of them looks something up is related: either both find nothing, or
both find something, and the two are related.
-/

namespace Option.Rel

variable {α β γ δ : Type} {r r' : α → β → Prop} {a : Option α} {b : Option β} {x : α}

theorem imp (h : Option.Rel r a b) (hr : ∀ x y, r x y → r' x y) : Option.Rel r' a b := by
  cases h with
  | none => exact .none
  | some h => exact .some (hr _ _ h)

theorem of_self {r : α → α → Prop} {a : Option α} (h : ∀ x, a = Option.some x → r x x) :
    Option.Rel r a a := by
  cases a with
  | none => exact .none
  | some x => exact .some (h x rfl)

theorem map {q : γ → δ → Prop} {f : α → γ} {g : β → δ} (h : Option.Rel r a b)
    (hfg : ∀ x y, r x y → q (f x) (g y)) : Option.Rel q (a.map f) (b.map g) := by
  cases h with
  | none => exact .none
  | some h => exact .some (hfg _ _ h)

theorem eq_none (h : Option.Rel r a b) (ha : a = Option.none) : b = Option.none := by
  cases h with
  | none => rfl
  | some _ => cases ha

theorem exists_of_eq_some (h : Option.Rel r a b) (ha : a = Option.some x) :
    ∃ y, b = Option.some y ∧ r x y := by
  cases h with
  | none => cases ha
  | some h =>
      cases ha
      exact ⟨_, rfl, h⟩

end Option.Rel
