import ScopedScript.Proofs.Relabelling.Resolution
import ScopedScript.Proofs.Scope.Recorded

/-!
# Resolving two programs at once

At the top level of a program nothing is declared in a scope, so what is found for the references of
a program does not depend on what was read before it. Two programs one after the other are resolved
just as each of them by itself.
-/

namespace ScopedScript

section TopLevel

variable (p q : List Stmt)

theorem Stmt.recordsAll_append :
    Stmt.recordsAll [] (p ++ q) = Stmt.recordsAll [] p ++ Stmt.recordsAll [] q := by
  induction p with
  | nil => rfl
  | cons s p ih =>
      simp only [List.cons_append, Stmt.recordsAll, s.after_nil, ih, List.append_assoc]

theorem Stmt.obeysAll_append {setting : Setting} : Stmt.ObeysAll setting [] (p ++ q) ↔
    Stmt.ObeysAll setting [] p ∧ Stmt.ObeysAll setting [] q := by
  induction p with
  | nil => simp [Stmt.ObeysAll]
  | cons s p ih => simp only [List.cons_append, Stmt.ObeysAll, s.after_nil, ih, and_assoc]

end TopLevel

/-- It does not matter whether what is found is added to what is known at once or one by one. -/
theorem getElem?_recordAll_union {D D₁ D₂ : Distances} {rs : List Record}
    (h : ∀ id : NodeId, D₂[id]? = (D ∪ D₁)[id]?) (id : NodeId) :
    (recordAll D₂ rs)[id]? = (D ∪ recordAll D₁ rs)[id]? := by
  induction rs generalizing D₁ D₂ with
  | nil => exact h id
  | cons r rs ih =>
      obtain ⟨id', found⟩ := r
      cases found with
      | none => exact ih h
      | some distance =>
          apply ih
          intro id
          rw [Std.TreeMap.getElem?_union, Std.TreeMap.getElem?_insert, Std.TreeMap.getElem?_insert,
            h id, Std.TreeMap.getElem?_union]
          split <;> rfl

/-- Two programs one after the other are resolved if each of them is, with the same distances. -/
theorem resolve_append {p q : List Stmt} {D D' : Distances} (hp : resolve p = .ok D)
    (hq : resolve q = .ok D') : ∃ D₁, resolve (p ++ q) = .ok D₁ ∧
      ∀ id : NodeId, D₁[id]? = (D ∪ D')[id]? := by
  obtain ⟨hobeys, rfl⟩ := resolve_eq_ok.mp hp
  obtain ⟨hobeys', rfl⟩ := resolve_eq_ok.mp hq
  refine ⟨_, resolve_eq_ok.mpr ⟨(Stmt.obeysAll_append p q).mpr ⟨hobeys, hobeys'⟩, rfl⟩, ?_⟩
  intro id
  rw [Stmt.recordsAll_append, recordAll_append]
  have hempty (id : NodeId) :
      (recordAll ∅ (Stmt.recordsAll [] p))[id]? =
        (recordAll ∅ (Stmt.recordsAll [] p) ∪ (∅ : Distances))[id]? := by
    rw [Std.TreeMap.getElem?_union, Std.TreeMap.getElem?_emptyc, Option.none_or]
  exact getElem?_recordAll_union hempty id

end ScopedScript
