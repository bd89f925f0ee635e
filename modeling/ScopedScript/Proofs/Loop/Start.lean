import ScopedScript.Proofs.Eval.Safety
import ScopedScript.Proofs.Loop.Coupling

/-!
# Runs that start in the same state

A state and the same state with another table of distances are coupled, each scope with itself, if
the tables agree on the references of all programs that have been read so far. So a sound state is
where two runs may start that go on with different statements.
-/

namespace ScopedScript

/-- What is found for references is known to two runs that agree on them. -/
theorem Recorded.found {n : NodeId} {D D' : Distances} {rs : List Record} (h : Recorded n D rs)
    (hagree : D.Agree n D') : Tables.Found ⟨D, D'⟩ id rs rs where
  first r hr := (h.known r hr).2
  second r hr := by
    obtain ⟨hlt, hfound⟩ := h.known r hr
    exact (hagree r.1 hlt).trans hfound

namespace World

/-- Two runs in the same state, of which the second one has another table. -/
def start (s : State) (distances : Distances) : World where
  first := s
  second := { s with distances := distances }
  pairs e e' := e' = e ∧ s.store.HasEnv e

variable {n : NodeId} {s : State} {D : Distances} {setting : Setting} {Γ : Scopes}
variable {e : EnvId} {f : Function} {c : Class} {v : Value}

theorem chains_start (h : s.Matches e Γ) :
    (start s D).Chains (Γ.map fun _ => .both) e e := by
  induction Γ generalizing e with
  | nil => exact ⟨h, h⟩
  | cons scope Γ ih =>
      obtain ⟨_, outer, houter, hrest⟩ := h
      have he : s.store.HasEnv e := Store.hasEnv_of_enclosing? houter
      exact ⟨⟨rfl, he⟩, outer, outer, houter, houter, ih hrest⟩

/-- A function whose closure matches the scopes in which it is declared, but for inner ones that are
still to come. -/
theorem function_alike_start (inner : Scopes) (hagree : s.distances.Agree n D)
    (hmatches : s.Matches f.closure Γ)
    (hknown : f.declaration.KnownIn n s setting (inner ++ Γ)) :
    Function.Alike ⟨s.distances, D⟩ (start s D) (inner.map fun _ => .both) f f := by
  obtain ⟨identity, d, closure, isInitializer⟩ := f
  have hmeet : Layers.Meet (Γ.map fun _ => .both) := by
    cases Γ <;> trivial
  have haligned : d.Aligned ⟨s.distances, D⟩ id
      ((inner.map fun _ => .both) ++ Γ.map fun _ => .both) := by
    rw [← List.map_append]
    exact FunctionDecl.aligned_of_found d (.same _) hknown.stable hknown.stable hknown.formed
      (hknown.fits.recorded.found hagree)
  have halike : Function.Alike ⟨s.distances, D⟩ (start s D) (inner.map fun _ => .both)
      ⟨identity, d, closure, isInitializer⟩
      ⟨identity, d.relabel (.renumber id), closure, isInitializer⟩ :=
    .mk (chains_start hmatches) hmeet haligned
  rwa [show d.relabel (.renumber id) = d from d.relabel_none] at halike

theorem class_alike_start (hagree : s.distances.Agree n D) (hc : c.Sound n s) :
    Class.Alike ⟨s.distances, D⟩ (start s D) c c := by
  refine ⟨rfl, rfl, fun x => .of_self fun method hmethod => ?_⟩
  obtain ⟨setting, Γ, hmatches, hknown⟩ := Eval.soundMethod_of_findMethod? hc hmethod
  exact function_alike_start [Scopes.receiverScope] hagree hmatches hknown

/-- A value of which all is known is alike to itself. -/
theorem value_alike_start (hagree : s.distances.Agree n D) (hv : v.Sound n s) :
    Value.Alike ⟨s.distances, D⟩ (start s D) v v := by
  cases v with
  | nil => exact .nil
  | bool _ => exact .bool
  | number _ => exact .number
  | string _ => exact .string
  | native _ => exact .native
  | function f =>
      obtain ⟨⟨setting, Γ, hmatches, hknown⟩, _⟩ := hv
      exact .function (function_alike_start [] hagree hmatches hknown)
  | cls c => exact .cls (class_alike_start hagree hv)
  | object o => exact .object (class_alike_start hagree hv)

/-- Two runs that start in the same sound state are coupled. -/
theorem coupled_start (hagree : s.distances.Agree n D) (hs : s.Sound n) (hgrounded : s.Grounded) :
    (start s D).Coupled ⟨s.distances, D⟩ where
  even := ⟨hgrounded, hgrounded.later rfl (.refl _) rfl, rfl, rfl, rfl, rfl, rfl, rfl⟩
  «matched» := {
    globals := ⟨rfl, hgrounded.hasEnv⟩
    unique := by
      rintro e _ f _ ⟨rfl, _⟩ ⟨rfl, _⟩
      exact .rfl
    first_hasEnv := fun he => he.2
    second_hasEnv := by
      rintro e _ ⟨rfl, he⟩
      exact he
    binding := by
      rintro e _ ⟨rfl, _⟩ x
      exact .of_self fun v hv => value_alike_start hagree (hs.binding hv)
    first_bare := fun hv => ⟨_, rfl, Store.hasEnv_of_binding? hv⟩
    second_bare := fun hv => ⟨_, rfl, Store.hasEnv_of_binding? hv⟩
    nextObject_eq := rfl
    field := fun o x => .of_self fun v hv => value_alike_start hagree (hs.field hv) }

end World

end ScopedScript
