import ScopedScript.Proofs.Token.MaximalMunch

/-!
# Scanned tokens

The tokens of a source text end with the end of the text, which does not come before, and no
identifier among them is spelled like a keyword.
-/

namespace ScopedScript

/-- A word is not spelled like a keyword. -/
def NoKeyword (x : String) : Prop := ∀ k : Keyword, k.spelling ≠ x

instance (x : String) : Decidable (NoKeyword x) :=
  decidable_of_iff (∀ k ∈ Keyword.all, k.spelling ≠ x)
    ⟨fun h k => h k (Keyword.mem_all k), fun h k _ => h k⟩

theorem Segment.Gives.noKeyword {s : Segment} {t : Token} (h : s.Gives (.ok t))
    (ht : t.kind = .identifier) : NoKeyword t.lexeme := by
  cases s with
  | mark m => exact nomatch h.1.symm.trans ht
  | string body closed => exact nomatch h.1.symm.trans ht
  | number whole fraction => exact nomatch h.1.symm.trans ht
  | word w =>
      obtain ⟨_, ⟨k, _, hk⟩ | ⟨hno, _⟩⟩ := h
      · exact nomatch hk.symm.trans ht
      · exact hno
  | brokenNumber _ | blank _ | newline | comment _ | stray _ => exact h.elim

theorem Segment.noKeyword_of_gives {segs : List Segment} {items : List Item}
    (h : List.Forall₂ Gives segs items) {t : Token} (ht : .ok t ∈ items)
    (hkind : t.kind = .identifier) : NoKeyword t.lexeme := by
  induction h with
  | nil => simp at ht
  | cons hfirst _ ih =>
      rcases List.mem_cons.mp ht with rfl | htail
      · exact hfirst.noKeyword hkind
      · exact ih htail

/-- The tokens of a source text are some that are not the end of the text, and then its end; the
identifiers among them are no keywords. -/
theorem exists_tokens_scan_eq (source : String) : ∃ front eof,
    (scan source).tokens = front ++ [eof] ∧ eof.kind = .eof ∧
      ∀ t ∈ front, t.kind ≠ .eof ∧ (t.kind = .identifier → NoKeyword t.lexeme) := by
  obtain ⟨front, last, hitems, hgives⟩ := exists_itemsFrom_eq 1 (segments source.toList)
  refine ⟨(Scan.ofItems front).tokens, ⟨.eof, "", last⟩, ?_, rfl, ?_⟩
  · rw [scan, items, hitems]
    simp [Scan.ofItems]
  · intro t ht
    have hmem : .ok t ∈ front := Scan.mem_tokens_ofItems.mp ht
    refine ⟨?_, Segment.noKeyword_of_gives hgives hmem⟩
    intro heof
    have hnot := Segment.isEof_eq_false_of_gives hgives hmem
    rw [Token.isEof, heof] at hnot
    cases hnot

end ScopedScript
