import ScopedScript.Outcome

/-!
# How computations end

What it takes for a compound computation to end well, read backwards from its result, and what is
known of its end whichever way it ends, put together from what is known of its parts. Nothing is
said of a computation that runs out of fuel.
-/

namespace ScopedScript.Run

variable {ε ε' σ α β : Type}

theorem bind_eq_ok {m : Run ε σ α} {f : α → Run ε σ β} {s s' : σ} {b : β} :
    (m >>= f) s = .ok b s' ↔ ∃ a t, m s = .ok a t ∧ f a t = .ok b s' := by
  rw [bind_apply]
  cases m s with
  | ok a t =>
      constructor
      · intro h
        exact ⟨a, t, rfl, h⟩
      · rintro ⟨a', t', heq, h⟩
        cases heq
        exact h
  | fault e t => simp
  | exhausted => simp

theorem map_eq_ok {m : Run ε σ α} {f : α → β} {s s' : σ} {b : β} :
    (f <$> m) s = .ok b s' ↔ ∃ a, m s = .ok a s' ∧ f a = b := by
  rw [map_eq_pure_bind, bind_eq_ok]
  constructor
  · rintro ⟨a, t, h, hpure⟩
    cases hpure
    exact ⟨a, h, rfl⟩
  · rintro ⟨a, h, rfl⟩
    exact ⟨a, s', h, rfl⟩

theorem map_eq_fault {m : Run ε σ α} {f : α → β} {s s' : σ} {e : ε} :
    (f <$> m) s = .fault e s' ↔ m s = .fault e s' := by
  rw [map_eq_pure_bind, bind_apply]
  cases m s <;> simp

theorem map_eq_exhausted {m : Run ε σ α} {f : α → β} {s : σ} :
    (f <$> m) s = .exhausted ↔ m s = .exhausted := by
  rw [map_eq_pure_bind, bind_apply]
  cases m s <;> simp

theorem bind_of_ok {m : Run ε σ α} {f : α → Run ε σ β} {s t : σ} {a : α} (h : m s = .ok a t) :
    (m >>= f) s = f a t := by
  rw [bind_apply, h]

/-- If `m` ends well it does so as `Q` says, and if it ends with a fault it does so as `F` says. -/
def Ensures (m : Run ε σ α) (s : σ) (Q : α → σ → Prop) (F : ε → σ → Prop) : Prop :=
  match m s with
  | .ok a s' => Q a s'
  | .fault e s' => F e s'
  | .exhausted => True

namespace Ensures

variable {m : Run ε σ α} {f : α → Run ε σ β} {s s' : σ} {a : α} {e : ε}
variable {Q Q' : α → σ → Prop} {P : β → σ → Prop} {F F' : ε → σ → Prop}

theorem of_ok {t : σ} (h : m s = .ok a t) (hQ : Q a t) : m.Ensures s Q F := by
  unfold Ensures
  rwa [h]

theorem of_fault {t : σ} (h : m s = .fault e t) (hF : F e t) : m.Ensures s Q F := by
  unfold Ensures
  rwa [h]

theorem of_exhausted (h : m s = .exhausted) : m.Ensures s Q F := by
  unfold Ensures
  rw [h]
  trivial

theorem ok (h : m.Ensures s Q F) (hm : m s = .ok a s') : Q a s' := by
  unfold Ensures at h
  rwa [hm] at h

theorem fault (h : m.Ensures s Q F) (hm : m s = .fault e s') : F e s' := by
  unfold Ensures at h
  rwa [hm] at h

theorem mono (h : m.Ensures s Q F) (hQ : ∀ a s', Q a s' → Q' a s')
    (hF : ∀ e s', F e s' → F' e s') : m.Ensures s Q' F' := by
  unfold Ensures at h ⊢
  cases hm : m s with
  | ok a s' =>
      rw [hm] at h
      exact hQ a s' h
  | fault e s' =>
      rw [hm] at h
      exact hF e s' h
  | exhausted => trivial

theorem and (h : m.Ensures s Q F) (h' : m.Ensures s Q' F') :
    m.Ensures s (fun a s' => Q a s' ∧ Q' a s') (fun e s' => F e s' ∧ F' e s') := by
  unfold Ensures at h h' ⊢
  cases hm : m s with
  | ok _ _ | fault _ _ =>
      rw [hm] at h h'
      exact ⟨h, h'⟩
  | exhausted => trivial

theorem bind (h : m.Ensures s Q F) (hf : ∀ a s', Q a s' → (f a).Ensures s' P F) :
    (m >>= f).Ensures s P F := by
  unfold Ensures at h ⊢
  rw [bind_apply]
  cases hm : m s with
  | ok a s' =>
      rw [hm] at h
      exact hf a s' h
  | fault e s' =>
      rw [hm] at h
      exact h
  | exhausted => trivial

theorem bind_of_ok (h : m s = .ok a s') (hf : (f a).Ensures s' P F) :
    (m >>= f).Ensures s P F := by
  unfold Ensures at *
  rwa [Run.bind_of_ok h]

theorem bind_of_fault (h : m s = .fault e s') (hF : F e s') : (m >>= f).Ensures s P F := by
  unfold Ensures
  rwa [bind_apply, h]

theorem bind_of_exhausted (h : m s = .exhausted) : (m >>= f).Ensures s P F := by
  unfold Ensures
  rw [bind_apply, h]
  trivial

theorem map {g : α → β} (h : m.Ensures s Q F) (hg : ∀ a s', Q a s' → P (g a) s') :
    (g <$> m).Ensures s P F := by
  rw [map_eq_pure_bind]
  exact h.bind fun a s' hQ => of_ok rfl (hg a s' hQ)

end Ensures

/-- `m` ends in the state `s'`, well or with a fault. -/
def Ends (m : Run ε σ α) (s s' : σ) : Prop := (∃ a, m s = .ok a s') ∨ ∃ e, m s = .fault e s'

theorem Ensures.of_ends {m : Run ε σ α} {s s' : σ} {P : σ → Prop}
    (h : m.Ensures s (fun _ s' => P s') (fun _ s' => P s')) (hends : m.Ends s s') : P s' := by
  obtain ⟨a, hok⟩ | ⟨e, hfault⟩ := hends
  · exact h.ok hok
  · exact h.fault hfault

theorem Ensures.mapError {m : Run ε σ α} {f : ε → ε'} {s : σ} {Q : α → σ → Prop}
    {F : ε → σ → Prop} {F' : ε' → σ → Prop} (h : m.Ensures s Q F)
    (hF : ∀ e s', F e s' → F' (f e) s') : (m.mapError f).Ensures s Q F' := by
  unfold Ensures Run.mapError at *
  cases hm : m s with
  | ok a s' =>
      rw [hm] at h
      exact h
  | fault e s' =>
      rw [hm] at h
      exact hF e s' h
  | exhausted => trivial

/-- However `m` ends, it ends in a state that `R` relates to the one it started in. -/
def Keeps (R : σ → σ → Prop) (m : Run ε σ α) : Prop :=
  ∀ s, m.Ensures s (fun _ s' => R s s') (fun _ s' => R s s')

namespace Keeps

variable {R : σ → σ → Prop} {m : Run ε σ α} {f : α → Run ε σ β}

theorem fail (hrefl : ∀ s, R s s) (e : ε) : (Run.fail e : Run ε σ α).Keeps R :=
  fun s => .of_fault rfl (hrefl s)

theorem pure (hrefl : ∀ s, R s s) (a : α) : (Pure.pure a : Run ε σ α).Keeps R :=
  fun s => .of_ok rfl (hrefl s)

theorem bind (htrans : ∀ s₁ s₂ s₃, R s₁ s₂ → R s₂ s₃ → R s₁ s₃) (h : m.Keeps R)
    (hf : ∀ a, (f a).Keeps R) : (m >>= f).Keeps R := by
  intro s
  refine (h s).bind ?_
  intro a s' hs'
  exact (hf a s').mono (fun _ s'' => htrans s s' s'' hs') (fun _ s'' => htrans s s' s'' hs')

theorem mono {R' : σ → σ → Prop} (h : m.Keeps R) (hR : ∀ s s', R s s' → R' s s') : m.Keeps R' :=
  fun s => (h s).mono (fun _ s' => hR s s') (fun _ s' => hR s s')

end Keeps

end ScopedScript.Run
