import ScopedScript.Proofs.Outcome
import ScopedScript.Proofs.Syntax.Written

/-!
# Moving past tokens

How the elementary readers move a cursor: which tokens they take when they end well, and how they
end when certain tokens come next.
-/

namespace ScopedScript

theorem Kind.same_mark_iff {k : Kind} {m : Mark} : k.same (.mark m) = true ↔ k = .mark m := by
  cases k <;> simp [Kind.same]

theorem Token.isMark_iff {t : Token} {m : Mark} : t.isMark m = true ↔ t.kind = .mark m :=
  Kind.same_mark_iff

theorem Token.isEof_iff {t : Token} : t.isEof = true ↔ t.kind = .eof := by
  unfold Token.isEof
  cases t.kind <;> simp [Kind.same]

/-- The tokens `w` lie between two places. -/
structure Takes (c : Cursor) (w : List Token) (c' : Cursor) : Prop where
  rest_eq : c.rest = w ++ c'.rest
  eof_eq : c'.eof = c.eof

namespace Takes

variable {c c₁ c' : Cursor} {v w : List Token}

theorem refl (c : Cursor) : Takes c [] c := ⟨rfl, rfl⟩

theorem trans (hv : Takes c v c₁) (hw : Takes c₁ w c') : Takes c (v ++ w) c' :=
  ⟨by rw [hv.rest_eq, hw.rest_eq, List.append_assoc], hw.eof_eq.trans hv.eof_eq⟩

/-- No reader passes the end of the text. -/
theorem eof_kind (h : Takes c w c') (hc : c.eof.kind = .eof) : c'.eof.kind = .eof := by
  rw [h.eof_eq, hc]

end Takes

namespace Cursor

variable {c : Cursor}

/-- The next token is one that can be moved past. -/
def HasNext (c : Cursor) : Prop := c.rest = c.peek :: c.advance.rest

theorem HasNext.takes (h : c.HasNext) : Takes c [c.peek] c.advance := ⟨h, rfl⟩

theorem hasNext_of_atEnd_eq_false (h : c.atEnd = false) : c.HasNext := by
  unfold HasNext peek advance
  unfold atEnd at h
  cases hrest : c.rest with
  | nil => simp [hrest] at h
  | cons t rest => rfl

theorem hasNext_of_peek_kind_ne (hc : c.eof.kind = .eof) (h : c.peek.kind ≠ .eof) :
    c.HasNext := by
  apply hasNext_of_atEnd_eq_false
  unfold atEnd
  cases hrest : c.rest with
  | nil => exact (h (by simpa [peek, hrest] using hc)).elim
  | cons t rest => rfl

end Cursor

namespace Reader

variable {c c' : Cursor}

theorem sees_eq_ok {m : Mark} {b : Bool} (h : sees m c = .ok b c') :
    c = c' ∧ (b = true → c.HasNext ∧ c.peek.kind = .mark m) := by
  cases h
  refine ⟨rfl, ?_⟩
  intro hb
  obtain ⟨hend, hmark⟩ := Bool.and_eq_true_iff.mp hb
  exact ⟨Cursor.hasNext_of_atEnd_eq_false (by simpa using hend), Token.isMark_iff.mp hmark⟩

theorem accept_eq_ok {m : Mark} {b : Bool} (h : accept m c = .ok b c') :
    (b = true ∧ c' = c.advance ∧ c.HasNext ∧ c.peek.kind = .mark m) ∨
      (b = false ∧ c = c' ∧ sees m c = .ok false c) := by
  obtain ⟨seen, c₁, hsees, h⟩ := Run.bind_eq_ok.mp h
  obtain ⟨rfl, hnext⟩ := sees_eq_ok hsees
  cases seen with
  | true =>
      cases h
      exact Or.inl ⟨rfl, rfl, hnext rfl⟩
  | false =>
      cases h
      exact Or.inr ⟨rfl, rfl, hsees⟩

theorem expect_eq_ok {m : Mark} {fault : SyntaxFault} {t : Token}
    (h : expect m fault c = .ok t c') :
    t = c.peek ∧ c' = c.advance ∧ c.HasNext ∧ c.peek.kind = .mark m := by
  obtain ⟨seen, c₁, hsees, h⟩ := Run.bind_eq_ok.mp h
  obtain ⟨rfl, hnext⟩ := sees_eq_ok hsees
  cases seen with
  | true =>
      cases h
      exact ⟨rfl, rfl, hnext rfl⟩
  | false => cases h

theorem identifier_eq_ok {fault : SyntaxFault} {name : Name} (h : identifier fault c = .ok name c')
    (hc : c.eof.kind = .eof) :
    name = c.peek.toName ∧ c' = c.advance ∧ c.HasNext ∧ c.peek.kind = .identifier := by
  obtain ⟨t, c₁, hpeek, h⟩ := Run.bind_eq_ok.mp h
  cases hpeek
  cases hkind : c.peek.kind with
  | identifier =>
      rw [hkind] at h
      cases h
      exact ⟨rfl, rfl, Cursor.hasNext_of_peek_kind_ne hc (by simp [hkind]), rfl⟩
  | mark _ | keyword _ | string _ | number _ | eof =>
      rw [hkind] at h
      cases h

section KnownTokens

variable {t eof : Token} {rest : List Token} {i : NodeId} {m : Mark}

theorem peek_cons : peek ⟨t :: rest, eof, i⟩ = .ok t ⟨t :: rest, eof, i⟩ := rfl

theorem advance_cons : advance ⟨t :: rest, eof, i⟩ = .ok () ⟨rest, eof, i⟩ := rfl

theorem sees_cons (ht : t.kind = .mark m) :
    sees m ⟨t :: rest, eof, i⟩ = .ok true ⟨t :: rest, eof, i⟩ := by
  have hmark : t.isMark m = true := Token.isMark_iff.mpr ht
  simp [sees, Cursor.atEnd, Cursor.peek, hmark]

theorem sees_of_ne (h : c.peek.kind ≠ .mark m) : sees m c = .ok false c := by
  have hmark : c.peek.isMark m = false := by
    rw [Bool.eq_false_iff]
    exact fun hmark => h (Token.isMark_iff.mp hmark)
  simp [sees, hmark]

theorem accept_cons (ht : t.kind = .mark m) :
    accept m ⟨t :: rest, eof, i⟩ = .ok true ⟨rest, eof, i⟩ := by
  unfold accept
  rw [Run.bind_of_ok (sees_cons ht)]
  rfl

theorem accept_of_ne (h : c.peek.kind ≠ .mark m) : accept m c = .ok false c := by
  unfold accept
  rw [Run.bind_of_ok (sees_of_ne h)]
  rfl

theorem expect_cons {fault : SyntaxFault} (ht : t.kind = .mark m) :
    expect m fault ⟨t :: rest, eof, i⟩ = .ok t ⟨rest, eof, i⟩ := by
  unfold expect
  rw [Run.bind_of_ok (sees_cons ht)]
  rfl

theorem identifier_cons {fault : SyntaxFault} (ht : t.kind = .identifier) :
    identifier fault ⟨t :: rest, eof, i⟩ = .ok t.toName ⟨rest, eof, i⟩ := by
  unfold identifier
  rw [Run.bind_of_ok peek_cons, ht]
  rfl

end KnownTokens

end Reader

end ScopedScript
