import ScopedScript.Proofs.Scope.Resolution
import ScopedScript.Proofs.Syntax.Numbering

/-!
# What is known of references

What has been found for the references of a tree stays known while more trees are read: their
references have other numbers. A reference that means a global variable is known by having no
distance.
-/

namespace ScopedScript

/-- What is found for some references is what is known of them. Each has a number of its own, which
lies below `n`. -/
structure Recorded (n : NodeId) (distances : Distances) (rs : List Record) : Prop where
  known : ∀ r ∈ rs, r.1 < n ∧ distances[r.1]? = r.2
  distinct : (idsOf rs).Nodup

/-- The same is known of the references whose numbers lie below `n`. -/
def Distances.Agree (n : NodeId) (distances distances' : Distances) : Prop :=
  ∀ id < n, distances'[id]? = distances[id]?

namespace Distances.Agree

variable {n n' : NodeId} {D D₁ D₂ D₃ : Distances}

theorem refl (n : NodeId) (D : Distances) : Agree n D D := fun _ _ => rfl

end Distances.Agree

namespace Recorded

variable {n n' : NodeId} {D D' : Distances} {rs rs' : List Record} {r : Record}

theorem append (h : Recorded n D (rs ++ rs')) : Recorded n D rs ∧ Recorded n D rs' := by
  obtain ⟨hrs, hrs'⟩ := List.forall_mem_append.mp h.known
  have hdistinct := h.distinct
  rw [idsOf_append] at hdistinct
  obtain ⟨hids, hids', _⟩ := List.nodup_append.mp hdistinct
  exact ⟨⟨hrs, hids⟩, ⟨hrs', hids'⟩⟩

theorem cons (h : Recorded n D (r :: rs)) :
    (r.1 < n ∧ D[r.1]? = r.2) ∧ Recorded n D rs := by
  obtain ⟨hr, hrs⟩ := List.forall_mem_cons.mp h.known
  exact ⟨hr, hrs, (List.nodup_cons.mp h.distinct).2⟩

theorem mono (h : Recorded n D rs) (hle : n ≤ n') (hagree : D.Agree n D') :
    Recorded n' D' rs where
  known r hr := by
    obtain ⟨hlt, hfound⟩ := h.known r hr
    exact ⟨Nat.lt_of_lt_of_le hlt hle, (hagree r.1 hlt).trans hfound⟩
  distinct := h.distinct

end Recorded

theorem getElem?_recordAll_of_notMem {D : Distances} {rs : List Record} {id : NodeId}
    (h : id ∉ idsOf rs) : (recordAll D rs)[id]? = D[id]? := by
  induction rs generalizing D with
  | nil => rfl
  | cons r rs ih =>
      obtain ⟨id', found⟩ := r
      have hne : id' ≠ id := fun heq => h (heq ▸ List.mem_cons_self)
      have hrest : id ∉ idsOf rs := fun hmem => h (List.mem_cons_of_mem id' hmem)
      cases found with
      | none => exact ih hrest
      | some distance =>
          refine (ih hrest).trans ?_
          rw [Std.TreeMap.getElem?_insert, if_neg]
          rwa [Nat.compare_eq_eq]

/-- If no reference is found twice and nothing was known of those that are, each is known by what
is found for it. -/
theorem getElem?_recordAll_of_mem {D : Distances} {rs : List Record} {r : Record} (hr : r ∈ rs)
    (hnodup : (idsOf rs).Nodup) (hunknown : ∀ id ∈ idsOf rs, D[id]? = none) :
    (recordAll D rs)[r.1]? = r.2 := by
  induction rs generalizing D with
  | nil => exact (List.not_mem_nil hr).elim
  | cons r' rs ih =>
      obtain ⟨id, found⟩ := r'
      obtain ⟨hid, hrest⟩ := List.nodup_cons.mp (hnodup : (id :: idsOf rs).Nodup)
      obtain ⟨hunknownId, hunknownRest⟩ := List.forall_mem_cons.mp
        (hunknown : ∀ id' ∈ id :: idsOf rs, D[id']? = none)
      rcases List.mem_cons.mp hr with rfl | hlater
      · cases found with
        | none => exact (getElem?_recordAll_of_notMem hid).trans hunknownId
        | some distance =>
            refine (getElem?_recordAll_of_notMem hid).trans ?_
            rw [Std.TreeMap.getElem?_insert_self]
      · cases found with
        | none => exact ih hlater hrest hunknownRest
        | some distance =>
            refine ih hlater hrest ?_
            intro id' hid'
            rw [Std.TreeMap.getElem?_insert, if_neg]
            · exact hunknownRest id' hid'
            · rw [Nat.compare_eq_eq]
              rintro rfl
              exact hid hid'

/-- The references of a program that is read after others become known, and of the others the same
is known as before. -/
theorem recorded_union {D : Distances} {rs : List Record} {i j : NodeId}
    (hnumbers : Numbers i j (idsOf rs)) (hold : ∀ id, i ≤ id → D[id]? = none) :
    Recorded j (D ∪ recordAll ∅ rs) rs ∧ D.Agree i (D ∪ recordAll ∅ rs) := by
  constructor
  · refine ⟨fun r hr => ?_, hnumbers.nodup⟩
    have hid : r.1 ∈ idsOf rs := List.mem_map_of_mem hr
    obtain ⟨hle, hlt⟩ := hnumbers.mem_iff.mp hid
    refine ⟨hlt, ?_⟩
    rw [Std.TreeMap.getElem?_union, hold r.1 hle, Option.or_none]
    exact getElem?_recordAll_of_mem hr hnumbers.nodup (fun _ _ => by simp)
  · intro id hid
    have hnot : id ∉ idsOf rs := fun h => Nat.not_le_of_lt hid (hnumbers.mem_iff.mp h).1
    rw [Std.TreeMap.getElem?_union, getElem?_recordAll_of_notMem hnot]
    simp

end ScopedScript
