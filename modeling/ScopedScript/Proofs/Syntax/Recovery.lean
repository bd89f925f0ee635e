import ScopedScript.Proofs.Syntax.Progress

/-!
# Reading past faults

What one step of reading past faults does: at the end of the text nothing, and before it the
declaration that is read next, or else the fault that it stops at. So reading past faults finds the
same program as reading up to the first fault, or the same first fault.
-/

namespace ScopedScript.Reader

variable {fuel : Nat} {c c' : Cursor}

/-- One step of reading past faults. -/
theorem recoveringProgram_succ (fuel : Nat) (c : Cursor) : recoveringProgram (fuel + 1) c =
    if c.atEnd then .ok [] c
    else match declaration fuel c with
      | .ok s c₁ => (List.cons (.ok s) <$> recoveringProgram fuel) c₁
      | .fault e c₁ => (List.cons (.error e) <$> recoveringProgram fuel) c₁.synchronize
      | .exhausted => .exhausted := by
  have hend : atEnd c = .ok c.atEnd c := rfl
  rw [recoveringProgram, Run.bind_of_ok hend]
  cases c.atEnd with
  | true => rfl
  | false =>
      simp only [Bool.false_eq_true, if_false]
      rw [Run.bind_apply]
      unfold Run.attempt
      cases declaration fuel c <;> rfl

theorem recoveringProgram_succ_eq_ok {ds : List (Except SyntaxError Stmt)} :
    recoveringProgram (fuel + 1) c = .ok ds c' ↔
      c.atEnd = true ∧ ds = [] ∧ c' = c ∨
      c.atEnd = false ∧
        ((∃ s c₁ rest, declaration fuel c = .ok s c₁ ∧ recoveringProgram fuel c₁ = .ok rest c' ∧
          ds = .ok s :: rest) ∨
        ∃ e c₁ rest, declaration fuel c = .fault e c₁ ∧
          recoveringProgram fuel c₁.synchronize = .ok rest c' ∧ ds = .error e :: rest) := by
  rw [recoveringProgram_succ]
  cases c.atEnd with
  | true => simp [eq_comm]
  | false =>
      simp only [Bool.false_eq_true, if_false, false_and, true_and, false_or]
      cases hfirst : declaration fuel c with
      | ok s c₁ =>
          simp only [Run.map_eq_ok]
          constructor
          · rintro ⟨rest, hrest, rfl⟩
            exact .inl ⟨s, c₁, rest, rfl, hrest, rfl⟩
          · rintro (⟨s', c₁', rest, hs, hrest, rfl⟩ | ⟨e, c₁', rest, he, _⟩)
            · cases hs
              exact ⟨rest, hrest, rfl⟩
            · cases he
      | fault e c₁ =>
          simp only [Run.map_eq_ok]
          constructor
          · rintro ⟨rest, hrest, rfl⟩
            exact .inr ⟨e, c₁, rest, rfl, hrest, rfl⟩
          · rintro (⟨s', c₁', rest, hs, _⟩ | ⟨e', c₁', rest, he, hrest, rfl⟩)
            · cases hs
            · cases he
              exact ⟨rest, hrest, rfl⟩
      | exhausted => simp

/-- Reading past faults does not stop at one. -/
theorem recoveringProgram_ne_fault {e : SyntaxError} :
    recoveringProgram fuel c ≠ .fault e c' := by
  induction fuel generalizing c with
  | zero => simp [recoveringProgram]
  | succ fuel ih =>
      rw [recoveringProgram_succ]
      cases c.atEnd with
      | true => simp
      | false =>
          cases hfirst : declaration fuel c with
          | ok _ _ | fault _ _ => exact fun h => ih (Run.map_eq_fault.mp h)
          | exhausted => simp

/-- One step of reading up to the first fault. -/
theorem program_succ (fuel : Nat) (c : Cursor) : program (fuel + 1) c =
    if c.atEnd then .ok [] c
    else match declaration fuel c with
      | .ok s c₁ => (List.cons s <$> program fuel) c₁
      | .fault e c₁ => .fault e c₁
      | .exhausted => .exhausted := by
  have hend : atEnd c = .ok c.atEnd c := rfl
  rw [program, Run.bind_of_ok hend]
  cases c.atEnd with
  | true => rfl
  | false =>
      simp only [Bool.false_eq_true, if_false]
      rw [Run.bind_apply]
      cases declaration fuel c <;> rfl

/-- A program that is read to its end is read past its faults too, and has none. -/
theorem recoveringProgram_of_program_eq_ok {p : List Stmt} (h : program fuel c = .ok p c') :
    recoveringProgram fuel c = .ok (p.map .ok) c' := by
  induction fuel generalizing c p with
  | zero => cases h
  | succ fuel ih =>
      rw [program_succ] at h
      rw [recoveringProgram_succ]
      cases hend : c.atEnd with
      | true =>
          rw [hend] at h
          cases h
          rfl
      | false =>
          rw [hend] at h
          cases hfirst : declaration fuel c with
          | ok s c₁ =>
              rw [hfirst] at h
              obtain ⟨rest, hrest, rfl⟩ := Run.map_eq_ok.mp h
              exact Run.map_eq_ok.mpr ⟨_, ih hrest, rfl⟩
          | fault e c₁ | exhausted =>
              rw [hfirst] at h
              cases h

/-- The fault at which reading a program stops is the first one that is found by reading past
faults, which gives out no fewer numbers. -/
theorem recoveringProgram_of_program_eq_fault {e : SyntaxError} (h : program fuel c = .fault e c')
    (hfuel : recoveringProgram fuel c ≠ .exhausted) : ∃ ds d es,
      recoveringProgram fuel c = .ok ds d ∧ errorsOf ds = e :: es ∧ c'.nextId ≤ d.nextId := by
  induction fuel generalizing c with
  | zero => cases h
  | succ fuel ih =>
      rw [program_succ] at h
      rw [recoveringProgram_succ] at hfuel ⊢
      cases hend : c.atEnd with
      | true =>
          rw [hend] at h
          cases h
      | false =>
          simp only [hend, Bool.false_eq_true, if_false] at h hfuel ⊢
          cases hfirst : declaration fuel c with
          | ok s c₁ =>
              rw [hfirst] at h hfuel
              have hrest : program fuel c₁ = .fault e c' := Run.map_eq_fault.mp h
              obtain ⟨ds, d, es, hds, herrors, hle⟩ := ih hrest fun hexhausted =>
                hfuel (Run.map_eq_exhausted.mpr hexhausted)
              exact ⟨.ok s :: ds, d, es, Run.map_eq_ok.mpr ⟨ds, hds, rfl⟩, herrors, hle⟩
          | fault e₁ c₁ =>
              rw [hfirst] at h hfuel
              cases h
              cases hrest : recoveringProgram fuel c'.synchronize with
              | ok ds d =>
                  have hforward := (goesForward_recoveringProgram fuel _).ok hrest
                  exact ⟨.error e :: ds, d, errorsOf ds, Run.map_eq_ok.mpr ⟨ds, hrest, rfl⟩, rfl,
                    ((Cursor.Precedes.synchronize c').trans hforward).nextId_le⟩
              | fault e' d => exact (recoveringProgram_ne_fault hrest).elim
              | exhausted => exact (hfuel (Run.map_eq_exhausted.mpr hrest)).elim
          | exhausted =>
              rw [hfirst] at h
              cases h

end ScopedScript.Reader
