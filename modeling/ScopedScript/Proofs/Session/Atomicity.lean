import ScopedScript.Proofs.Session.Preparation

/-!
# Programs that do not start

A source text in which something is wrong with the tokens, the syntax or the scopes is refused as a
whole: nothing of it is run, and of the session only the next number for a reference may change. Its
static faults tell such a text from one that was started, whose fault is the one that it met in the
course of its run.
-/

namespace ScopedScript.Session

variable {s s' : Session} {source : String} {program : List Stmt}

/-- What a refused program leaves of a session: everything, though numbers may have been given
out. -/
structure Untouched (s s' : Session) : Prop where
  state_eq : s'.state = s.state
  nextId_le : s.nextId ≤ s'.nextId

theorem Untouched.refl (s : Session) : s.Untouched s := ⟨rfl, Nat.le_refl _⟩

theorem Untouched.trans {s₁ s₂ s₃ : Session} (h₁ : s₁.Untouched s₂) (h₂ : s₂.Untouched s₃) :
    s₁.Untouched s₃ := ⟨h₂.state_eq.trans h₁.state_eq, Nat.le_trans h₁.nextId_le h₂.nextId_le⟩

/-- A program that is not accepted is refused with a static fault. -/
theorem ensures_accept_untouched (program : List Stmt) (s : Session) :
    (accept program).Ensures s (fun _ _ => True)
      (fun e s' => e.isStatic = true ∧ s.Untouched s') := by
  unfold accept
  cases resolve program with
  | ok distances => exact .of_ok rfl trivial
  | error e => exact .of_fault rfl ⟨rfl, .refl s⟩

theorem ensures_prepare_untouched (source : String) (s : Session) :
    (prepare source).Ensures s (fun _ _ => True)
      (fun e s' => e.isStatic = true ∧ s.Untouched s') := by
  have hread : s.Untouched ⟨s.state, (readProgram (scan source).tokens s.nextId).nextId⟩ :=
    ⟨rfl, le_nextId_readProgram⟩
  apply ensures_prepare_of
  · intro error errors _
    exact ⟨rfl, .refl s⟩
  · intro error _ _
    exact ⟨rfl, hread⟩
  · intro program _ _
    refine (ensures_accept_untouched program _).mono (fun _ _ _ => trivial) ?_
    intro e s' h
    exact ⟨h.1, hread.trans h.2⟩

theorem ensures_prepareLine_untouched (source : String) (s : Session) :
    (prepareLine source).Ensures s (fun _ _ => True)
      (fun errors s' => errors ≠ [] ∧ (∀ e ∈ errors, e.isStatic = true) ∧ s.Untouched s') := by
  have hread : s.Untouched ⟨s.state, (readPastFaults (scan source).tokens s.nextId).nextId⟩ :=
    ⟨rfl, le_nextId_readPastFaults⟩
  apply ensures_prepareLine_of
  · intro hne
    refine ⟨hne, ?_, hread⟩
    intro e he
    rw [List.mem_append, List.mem_map, List.mem_map] at he
    obtain ⟨_, _, rfl⟩ | ⟨_, _, rfl⟩ := he <;> rfl
  · intro _ _
    refine (ensures_accept_untouched _ _).mono (fun _ _ _ => trivial) ?_
    intro e s' h
    exact ⟨List.cons_ne_nil _ _, List.forall_mem_singleton.mpr h.1, hread.trans h.2⟩

/-- What is evaluated stops for a reason that is not static. The type `Halt` carries this, so it
holds of any computation in `Eval`, whatever that does. -/
theorem ensures_evaluate_not_static {α : Type} (m : Eval α) (s : Session) :
    (evaluate m).Ensures s (fun _ _ => True) (fun e _ => e.isStatic = false) := by
  apply ensures_evaluate_of
  cases hm : m s.state with
  | ok a state => exact .of_ok hm trivial
  | fault reason state => exact .of_fault hm rfl
  | exhausted => exact .of_exhausted hm

/-- The program of a source text is accepted, so that its first statement is executed next. -/
def Starts (s : Session) (source : String) : Prop := ∃ program s₁, prepare source s = .ok program s₁

/-- The program of a typed-in source text is accepted, so that its first statement is executed
next. -/
def StartsLine (s : Session) (source : String) : Prop :=
  ∃ program s₁, prepareLine source s = .ok program s₁

theorem run_eq_fault {fuel : Nat} {e : ProgramError} (h : run fuel source s = .fault e s') :
    s.Starts source ∧ e.isStatic = false ∨
      ¬s.Starts source ∧ e.isStatic = true ∧ s.Untouched s' := by
  unfold run at h
  rw [Run.bind_apply] at h
  unfold Starts
  cases hprepare : prepare source s with
  | ok program s₁ =>
      rw [hprepare] at h
      exact .inl ⟨⟨program, s₁, rfl⟩, (ensures_evaluate_not_static _ s₁).fault h⟩
  | fault e' s₁ =>
      rw [hprepare] at h
      cases h
      exact .inr ⟨by simp, (ensures_prepare_untouched source s).fault hprepare⟩
  | exhausted =>
      rw [hprepare] at h
      cases h

theorem runLine_eq_fault {fuel : Nat} {errors : List ProgramError}
    (h : runLine fuel source s = .fault errors s') :
    s.StartsLine source ∧ (∀ e ∈ errors, e.isStatic = false) ∨
      ¬s.StartsLine source ∧ errors ≠ [] ∧ (∀ e ∈ errors, e.isStatic = true) ∧
        s.Untouched s' := by
  unfold runLine at h
  rw [Run.bind_apply] at h
  unfold StartsLine
  cases hprepare : prepareLine source s with
  | ok program s₁ =>
      rw [hprepare] at h
      refine .inl ⟨⟨program, s₁, rfl⟩, ?_⟩
      have hevaluate : ((evaluate (Eval.runProgram fuel program)).mapError ([·])).Ensures s₁
          (fun _ _ => True) (fun errors _ => ∀ e ∈ errors, e.isStatic = false) :=
        (ensures_evaluate_not_static _ s₁).mapError fun _ _ he =>
          List.forall_mem_singleton.mpr he
      exact hevaluate.fault h
  | fault errors' s₁ =>
      rw [hprepare] at h
      cases h
      exact .inr ⟨by simp, (ensures_prepareLine_untouched source s).fault hprepare⟩
  | exhausted =>
      rw [hprepare] at h
      cases h

/-- Static faults are those of programs that do not start, and they leave everything as it was:
what has been printed, the store with all its scopes and objects, the known distances and the last
value. Once a program has started, none of its faults is static, in whatever state it was run. -/
theorem static_iff_not_starts (s : Session) (fuel : Nat) (source : String) :
    (∀ e s', run fuel source s = .fault e s' →
      (e.isStatic = true ↔ ¬s.Starts source) ∧ (e.isStatic = true → s.Untouched s')) ∧
    ∀ errors s', runLine fuel source s = .fault errors s' →
      ((∃ e ∈ errors, e.isStatic = true) ↔ ¬s.StartsLine source) ∧
        ((∃ e ∈ errors, e.isStatic = true) → s.Untouched s') := by
  constructor
  · intro e s' h
    rcases run_eq_fault h with ⟨hstarts, hstatic⟩ | ⟨hstarts, hstatic, hsame⟩
    · simp [hstarts, hstatic]
    · simp [hstarts, hstatic, hsame]
  · intro errors s' h
    rcases runLine_eq_fault h with ⟨hstarts, hstatic⟩ | ⟨hstarts, hne, hstatic, hsame⟩
    · have hnone : ¬∃ e ∈ errors, e.isStatic = true := by
        rintro ⟨e, he, htrue⟩
        rw [hstatic e he] at htrue
        cases htrue
      simp [hstarts, hnone]
    · obtain ⟨e, he⟩ := List.exists_mem_of_ne_nil errors hne
      have hsome : ∃ e ∈ errors, e.isStatic = true := ⟨e, he, hstatic e he⟩
      simp [hstarts, hsome, hsame]

/-- For example, a `return` at the top level keeps the text before it from being run, and so does
an expression without an end in a text that was typed in; in both texts, one number is given out. -/
theorem untouched_of_return :
    (¬(initial (.ofClock fun _ => 0) .accepting).Starts "print x; return;" ∧
      (initial (.ofClock fun _ => 0) .accepting).Untouched
        ⟨.initial (.ofClock fun _ => 0) .accepting, 1⟩) ∧
    ¬(initial (.ofClock fun _ => 0) .accepting).StartsLine "print x; nil" ∧
      (initial (.ofClock fun _ => 0) .accepting).Untouched
        ⟨.initial (.ofClock fun _ => 0) .accepting, 1⟩ := by
  have hrun : run 9 "print x; return;" (initial (.ofClock fun _ => 0) .accepting) =
      .fault (.scope ⟨.returnOutsideFunction, ⟨"return", 1⟩⟩)
        ⟨.initial (.ofClock fun _ => 0) .accepting, 1⟩ := by
    cbv
  have hline : runLine 9 "print x; nil" (initial (.ofClock fun _ => 0) .accepting) =
      .fault [.parse ⟨.noExpressionEnd, ⟨.eof, "", 1⟩, 0⟩]
        ⟨.initial (.ofClock fun _ => 0) .accepting, 1⟩ := by
    cbv
  obtain ⟨hstatic, hsame⟩ := (static_iff_not_starts _ 9 _).1 _ _ hrun
  obtain ⟨hstatic', hsame'⟩ := (static_iff_not_starts _ 9 _).2 _ _ hline
  exact ⟨⟨hstatic.mp rfl, hsame rfl⟩, hstatic'.mp ⟨_, List.mem_cons_self, rfl⟩,
    hsame' ⟨_, List.mem_cons_self, rfl⟩⟩

end ScopedScript.Session
