import ScopedScript.Proofs.Session.Agreement
import ScopedScript.Proofs.Session.Counterpart

/-!
# Numbers that have not been given out

Nothing that a session holds mentions a number that has not been given out: a session is its own
counterpart, in whatever way these numbers are changed.
-/

namespace ScopedScript.Session

theorem onward_id (n : Nat) : onward n n id = id := by
  funext id
  by_cases hid : id < n
  · exact onward_of_lt hid
  · rw [onward_of_le (Nat.le_of_not_lt hid), Nat.add_sub_cancel' (Nat.le_of_not_lt hid)]
    rfl

/-- What holds of two ends of the same computation holds of its end. -/
theorem EndsAlike.ensures {α : Type} {Q F : Session → Session → Prop}
    {m : Run ProgramError Session α} {s : Session}
    (h : EndsAlike IsFirst (fun _ s' _ t' => Q s' t') F (m s) (m.mapError ([·]) s)) :
    m.Ensures s (fun _ s' => Q s' s') (fun _ s' => F s' s') := by
  unfold Run.mapError at h
  cases hm : m s with
  | ok a s' =>
      rw [hm] at h
      exact .of_ok hm h
  | fault e s' =>
      rw [hm] at h
      exact .of_fault hm h.2
  | exhausted => exact .of_exhausted hm

/-- Nothing in a session mentions a number that has not been given out. -/
abbrev Bounded (s : Session) : Prop := Counterpart id s s

/-- Nothing in a session or a program mentions a number that has not been given out. -/
abbrev BoundedFor (p : List Stmt) (s : Session) : Prop := CounterpartFor id p p s s

variable {s : Session}

theorem Bounded.later (h : s.Bounded) {n : Nat} (hle : s.nextId ≤ n) :
    Bounded ⟨s.state, n⟩ := by
  have hlater := Counterpart.later h hle hle (Nat.le_refl _)
  rwa [onward_id] at hlater

theorem Bounded.forProgram (h : s.Bounded) {n : Nat} {p : List Stmt}
    (hprepared : Prepared s.nextId n p) : BoundedFor p ⟨s.state, n⟩ := by
  refine ⟨h.later (hprepared.numbers []).le, fun ψ hψ => ?_⟩
  have hsame : Stmt.relabelAll .none p = Stmt.relabelAll (.renumber ψ) p := by
    refine Stmt.relabelAll_congr (fun id hid => (hψ.eq_of_lt id ?_).symm) rfl
    exact ((distinctWithin_idsAll (hprepared.numbers [])).within id hid).2
  rwa [Stmt.relabelAll_none] at hsame

theorem ensures_prepare_bounded (source : String) (h : s.Bounded) : (prepare source).Ensures s
    (fun p s' => s'.BoundedFor p) (fun _ s' => s'.Bounded) := by
  apply ensures_prepare_of
  · intro _ _ _
    exact h
  · intro _ _ _
    exact h.later le_nextId_readProgram
  · intro p _ hread
    exact (h.forProgram (prepared_of_readProgram hread)).accept.ensures

theorem ensures_prepareLine_bounded (source : String) (h : s.Bounded) :
    (prepareLine source).Ensures s (fun p s' => s'.BoundedFor p) (fun _ s' => s'.Bounded) := by
  apply ensures_prepareLine_of
  · intro _
    exact h.later le_nextId_readPastFaults
  · intro _ hread
    exact (h.forProgram (prepared_of_readPastFaults hread)).accept.ensures

theorem ensures_run_bounded (fuel : Nat) (source : String) (h : s.Bounded) :
    (run fuel source).Ensures s (fun _ s' => s'.Bounded) (fun _ s' => s'.Bounded) :=
  (ensures_prepare_bounded source h).bind fun _ _ hp => (hp.evaluate fuel).ensures

theorem ensures_runLine_bounded (fuel : Nat) (source : String) (h : s.Bounded) :
    (runLine fuel source).Ensures s (fun _ s' => s'.Bounded) (fun _ s' => s'.Bounded) :=
  (ensures_prepareLine_bounded source h).bind fun _ _ hp =>
    (hp.evaluate fuel).ensures.mapError fun _ _ he => he

/-- A session that has been reached is bounded. -/
theorem Reachable.bounded (h : s.Reachable) : s.Bounded := by
  induction h with
  | initial => exact counterpart_initial
  | setEcho _ ih => exact ih.setEcho
  | run _ hends ih => exact (ensures_run_bounded _ _ ih).of_ends hends
  | runLine _ hends ih => exact (ensures_runLine_bounded _ _ ih).of_ends hends

end ScopedScript.Session
