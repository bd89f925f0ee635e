import ScopedScript.Proofs.Outcome

/-!
# Computations that mirror each other

One computation mirrors another if it does the same with everything changed: it starts from the
changed state, and ends alike with the changed result or fault in the changed state. What is needed
of the state for this has to hold all the way. A compound computation mirrors another if its parts
do.
-/

namespace ScopedScript

variable {ε ε' σ σ' α α' β β' γ : Type}

/-- The end of a computation with everything changed. -/
def Outcome.map (onError : ε → ε') (onState : σ → σ') (onValue : α → α') :
    Outcome ε σ α → Outcome ε' σ' α'
  | .ok a s => .ok (onValue a) (onState s)
  | .fault e s => .fault (onError e) (onState s)
  | .exhausted => .exhausted

/-- A change of faults and states, and what has to hold of the states. -/
structure Mirror (ε σ : Type) where
  error : ε → ε
  state : σ → σ
  Holds : σ → Prop

namespace Mirror

variable (μ : Mirror ε σ)

/-- The computation `m'` does what `m` does, with everything changed. -/
def Reflects (value : α → β) (m : Run ε σ α) (m' : Run ε σ β) : Prop :=
  ∀ s, μ.Holds s → m' (μ.state s) = (m s).map μ.error μ.state value ∧
    m.Ensures s (fun _ s' => μ.Holds s') (fun _ s' => μ.Holds s')

variable {μ} {value : α → α'} {value' : β → β'}

namespace Reflects

theorem eq {m : Run ε σ α} {m' : Run ε σ α'} (h : μ.Reflects value m m') {s : σ}
    (hs : μ.Holds s) : m' (μ.state s) = (m s).map μ.error μ.state value := (h s hs).1

theorem pure (a : α) : μ.Reflects value (pure a) (Pure.pure (value a)) :=
  fun _ hs => ⟨rfl, .of_ok rfl hs⟩

theorem fail (e : ε) : μ.Reflects value (Run.fail e) (Run.fail (μ.error e)) :=
  fun _ hs => ⟨rfl, .of_fault rfl hs⟩

theorem outOfFuel : μ.Reflects value Run.outOfFuel Run.outOfFuel :=
  fun _ _ => ⟨rfl, .of_exhausted rfl⟩

theorem bind {m : Run ε σ α} {m' : Run ε σ α'} {f : α → Run ε σ β} {f' : α' → Run ε σ β'}
    (h : μ.Reflects value m m') (hf : ∀ a, μ.Reflects value' (f a) (f' (value a))) :
    μ.Reflects value' (m >>= f) (m' >>= f') := by
  intro s hs
  obtain ⟨heq, hholds⟩ := h s hs
  rw [Run.bind_apply, heq]
  cases hm : m s with
  | ok a s' =>
      obtain ⟨heq', hholds'⟩ := hf a s' (hholds.ok hm)
      rw [Run.bind_of_ok hm]
      exact ⟨heq', .bind_of_ok hm hholds'⟩
  | fault e s' =>
      have hfault : (m >>= f) s = .fault e s' := by rw [Run.bind_apply, hm]
      rw [hfault]
      exact ⟨rfl, .of_fault hfault (hholds.fault hm)⟩
  | exhausted =>
      have hexhausted : (m >>= f) s = .exhausted := by rw [Run.bind_apply, hm]
      rw [hexhausted]
      exact ⟨rfl, .of_exhausted hexhausted⟩

theorem map {m : Run ε σ α} {m' : Run ε σ α'} {f : α → β} {f' : α' → β'}
    (h : μ.Reflects value m m') (hf : ∀ a, f' (value a) = value' (f a)) :
    μ.Reflects value' (f <$> m) (f' <$> m') := by
  rw [map_eq_pure_bind, map_eq_pure_bind]
  refine h.bind fun a => ?_
  rw [hf a]
  exact .pure (f a)

theorem gets {f : σ → α} {f' : σ → α'} (h : ∀ s, f' (μ.state s) = value (f s)) :
    μ.Reflects value (Run.gets f) (Run.gets f') := by
  intro s hs
  refine ⟨?_, .of_ok rfl hs⟩
  rw [Run.gets_apply, h s]
  rfl

theorem modify {f f' : σ → σ} (h : ∀ s, f' (μ.state s) = μ.state (f s))
    (hholds : ∀ s, μ.Holds s → μ.Holds (f s)) :
    μ.Reflects id (Run.modify f) (Run.modify f') := by
  intro s hs
  refine ⟨?_, .of_ok rfl (hholds s hs)⟩
  rw [Run.modify_apply, h s]
  rfl

theorem update {f : σ → α × σ} {f' : σ → α' × σ} (hvalue : ∀ s, (f' (μ.state s)).1 = value (f s).1)
    (hstate : ∀ s, (f' (μ.state s)).2 = μ.state (f s).2)
    (hholds : ∀ s, μ.Holds s → μ.Holds (f s).2) :
    μ.Reflects value (Run.update f) (Run.update f') := by
  intro s hs
  refine ⟨?_, .of_ok rfl (hholds s hs)⟩
  rw [Run.update_apply, hvalue s, hstate s]
  rfl

/-- What goes on with the state may make use of what holds of it. -/
theorem get_bind {f : σ → Run ε σ α} {f' : σ → Run ε σ α'}
    (h : ∀ s, μ.Holds s → μ.Reflects value (f s) (f' (μ.state s))) :
    μ.Reflects value (Run.get >>= f) (Run.get >>= f') :=
  fun s hs => h s hs s hs

end Reflects

end Mirror

end ScopedScript
