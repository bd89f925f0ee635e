import ScopedScript.Proofs.Eval.Growth

/-!
# Output that is refused

A run goes on only as long as its writes are taken. The first one that is refused stops it, at
whatever depth, and for no other reason is a run said to have been stopped by its output.
-/

namespace ScopedScript

/-- A sink after more writes, all of which were taken. -/
structure Sink.Takes (k k' : Sink) : Prop where
  refusal?_eq : k'.refusal? = k.refusal?
  writes_le : k.writes ≤ k'.writes
  taken (n : Nat) : k.writes ≤ n → n < k'.writes → k.refusal? n = none

/-- A sink after more writes, of which the last was refused and all others were taken. -/
def Sink.Refuses (reason : String) (k k' : Sink) : Prop :=
  ∃ k₁ : Sink, k.Takes k₁ ∧ k₁.refusal? k₁.writes = some reason ∧
    k' = { k₁ with writes := k₁.writes + 1 }

namespace Sink

variable {k k₁ k₂ k₃ : Sink} {text reason : String}

theorem Takes.refl (k : Sink) : k.Takes k := ⟨rfl, Nat.le_refl _, fun _ _ _ => by omega⟩

theorem Takes.trans (h₁ : k₁.Takes k₂) (h₂ : k₂.Takes k₃) : k₁.Takes k₃ where
  refusal?_eq := h₂.refusal?_eq.trans h₁.refusal?_eq
  writes_le := Nat.le_trans h₁.writes_le h₂.writes_le
  taken n hle hlt := by
    rcases Nat.lt_or_ge n k₂.writes with hn | hn
    · exact h₁.taken n hle hn
    · rw [← h₁.refusal?_eq]
      exact h₂.taken n hn hlt

theorem Takes.refuses (h : k₁.Takes k₂) (hrefuses : k₂.Refuses reason k₃) :
    k₁.Refuses reason k₃ := by
  obtain ⟨k, htakes, hrefusal, rfl⟩ := hrefuses
  exact ⟨k, h.trans htakes, hrefusal, rfl⟩

theorem takes_of_write (h : k.write text = (none, k₁)) : k.Takes k₁ := by
  unfold write at h
  cases hrefusal : k.refusal? k.writes with
  | none =>
      rw [hrefusal] at h
      cases h
      refine ⟨rfl, Nat.le_succ _, fun n hle hlt => ?_⟩
      obtain rfl : n = k.writes := Nat.le_antisymm (Nat.lt_succ_iff.mp hlt) hle
      exact hrefusal
  | some reason =>
      rw [hrefusal] at h
      cases h

theorem refuses_of_write (h : k.write text = (some reason, k₁)) : k.Refuses reason k₁ := by
  unfold write at h
  cases hrefusal : k.refusal? k.writes with
  | none =>
      rw [hrefusal] at h
      cases h
  | some reason =>
      rw [hrefusal] at h
      cases h
      exact ⟨k, .refl k, hrefusal, rfl⟩

end Sink

namespace Eval

/-- What is written in the course of a computation: only the last write may be refused, and it is if
and only if that stopped the computation. -/
def Writes : Course
  | none, s, s' => s.sink.Takes s'.sink
  | some (.runtime _ _), s, s' => s.sink.Takes s'.sink
  | some (.output reason), s, s' => s.sink.Refuses reason s'.sink

instance : Steady Writes where
  refl s := .refl s.sink
  trans {_ _ _ halt} h₁ h₂ :=
    match halt with
    | none | some (.runtime _ _) => Sink.Takes.trans h₁ h₂
    | some (.output _) => Sink.Takes.refuses h₁ h₂
  stop _ _ s := .refl s.sink
  store {s _} _ := .refl s.sink
  taken := Sink.takes_of_write
  refused := Sink.refuses_of_write
  nativeCalls {s _} := .refl s.sink
  nextIdentity {s _} := .refl s.sink
  lastValue {s _} := .refl s.sink
  within {_ _ _ halt} h :=
    match halt with
    | none | some (.runtime _ _) | some (.output _) => h

/-- A run stops as soon as a write is refused, and otherwise all its writes are taken. -/
theorem writes_runProgram (fuel : Nat) (program : List Stmt) :
    Keeps Writes (runProgram fuel program) := keeps_runProgram fuel program

end Eval

end ScopedScript
