import ScopedScript.Proofs.Concatenation.Reading
import ScopedScript.Proofs.Syntax.Sufficiency
import ScopedScript.Proofs.Token.Lines

/-!
# Where reading stops

A place in a list of tokens is a number of tokens that have been taken. No reader passes the first
end of the text, every declaration takes a token, and reading past faults goes on to the end of the
text. The tokens that are blamed on the way stand one behind the other, because after a fault
reading goes on behind the token at which it stopped; so their lines do not decrease either.
-/

namespace ScopedScript

variable {tokens : List Token} {base : NodeId} {c c₁ c' : Cursor} {e : SyntaxError} {k : Nat}

/-- The number of tokens before the end of a text. -/
def endPosition (tokens : List Token) : Nat := tokens.findIdx Token.isEof

/-- A cursor that has taken `k` of some tokens: it has not passed the end of the text, and what
comes next is the token behind those that it has taken. -/
structure Cursor.StandsAt (tokens : List Token) (c : Cursor) (k : Nat) : Prop where
  next : tokens[k]? = some c.peek
  left : k + c.rest.length = endPosition tokens

/-- How many of some tokens stand before the one that is blamed. -/
def SyntaxError.position (tokens : List Token) (e : SyntaxError) : Nat :=
  endPosition tokens - e.remaining

/-- The token that is blamed is one of some tokens, up to the end of the text. -/
structure SyntaxError.StandsIn (tokens : List Token) (e : SyntaxError) : Prop where
  token_eq : tokens[e.position tokens]? = some e.token
  left : e.position tokens + e.remaining = endPosition tokens

namespace Cursor

/-- The tokens up to the end of a text, and where reading them begins. -/
theorem exists_ofTokens_eq (base : NodeId) (heof : ∃ t ∈ tokens, t.isEof = true) : ∃ front eof rest,
    tokens = front ++ eof :: rest ∧ eof.kind = .eof ∧ endPosition tokens = front.length ∧
      ofTokens tokens base = ⟨front, eof, base⟩ := by
  obtain ⟨eof, hfind⟩ : ∃ eof, tokens.find? Token.isEof = some eof :=
    Option.isSome_iff_exists.mp (List.find?_isSome.mpr heof)
  obtain ⟨heof, front, rest, htokens, hfront⟩ := List.find?_eq_some_iff_append.mp hfind
  refine ⟨front, eof, rest, htokens, Token.isEof_iff.mp heof, ?_, ?_⟩
  · have hnot : ∀ t ∈ front, t.isEof = false := fun t ht => by simpa using hfront t ht
    rw [endPosition, htokens, List.findIdx_append, List.findIdx_eq_length.mpr hnot,
      if_neg (Nat.lt_irrefl _), List.findIdx_cons, heof]
    exact Nat.zero_add _
  · unfold ofTokens
    rw [hfind, htokens, List.takeWhile_append_of_pos hfront,
      List.takeWhile_cons_of_neg (by simp [heof]), List.append_nil]
    rfl

/-- Every later place is one among the tokens, up to the end of the text. -/
theorem Precedes.exists_standsAt (heof : ∃ t ∈ tokens, t.isEof = true)
    (h : (ofTokens tokens base).Precedes c) : ∃ k, c.StandsAt tokens k := by
  obtain ⟨front, eof, rest, htokens, _, hend, hstart⟩ := exists_ofTokens_eq base heof
  rw [hstart] at h
  obtain ⟨taken, hfront⟩ := h.rest_suffix
  have hfront : taken ++ c.rest = front := hfront
  refine ⟨taken.length, ?_, ?_⟩
  · rw [htokens, ← hfront, List.append_assoc, List.getElem?_append_right (Nat.le_refl _),
      Nat.sub_self, peek, h.eof_eq]
    cases c.rest with
    | nil | cons _ _ => rfl
  · rw [hend, ← hfront, List.length_append]

theorem StandsAt.le_endPosition (hk : c.StandsAt tokens k) : k ≤ endPosition tokens := by
  have hleft := hk.left
  omega

/-- The end of the text comes next just at its first occurrence. -/
theorem StandsAt.isEof_peek_iff (hk : c.StandsAt tokens k) :
    c.peek.isEof = true ↔ k = endPosition tokens := by
  obtain ⟨hlt, hpeek⟩ := List.getElem?_eq_some_iff.mp hk.next
  rw [← hpeek]
  constructor
  · intro heof
    refine Nat.le_antisymm hk.le_endPosition (Nat.not_lt.mp fun hbefore => ?_)
    rw [List.not_of_lt_findIdx hbefore] at heof
    cases heof
  · rintro rfl
    exact List.findIdx_getElem

/-- What is blamed at a place is the token that comes next there. -/
theorem StandsAt.standsIn_blame (hk : c.StandsAt tokens k) (fault : SyntaxFault) :
    (c.blame fault).StandsIn tokens ∧ (c.blame fault).position tokens = k := by
  have hposition : (c.blame fault).position tokens = k := by
    have hleft := hk.left
    show endPosition tokens - c.rest.length = k
    omega
  exact ⟨⟨by rw [hposition]; exact hk.next, by rw [hposition]; exact hk.left⟩, hposition⟩

theorem StopsAt.remaining_le (h : c.StopsAt e c') :
    c'.rest.length ≤ e.remaining ∧ e.remaining ≤ c.rest.length := by
  obtain ⟨c₁, hbefore, hafter, he⟩ := h
  rw [he]
  exact ⟨hafter.rest_suffix.length_le, hbefore.rest_suffix.length_le⟩

/-- A token that is blamed on the way stands among the tokens. -/
theorem StopsAt.standsIn (heof : ∃ t ∈ tokens, t.isEof = true)
    (hstart : (ofTokens tokens base).Precedes c) (h : c.StopsAt e c') : e.StandsIn tokens := by
  obtain ⟨c₁, hbefore, _, he⟩ := h
  obtain ⟨k, hk⟩ := (hstart.trans hbefore).exists_standsAt heof
  rw [he]
  exact (hk.standsIn_blame e.fault).1

end Cursor

theorem Closes.ne_nil {w : List Token} (h : Closes w) : w ≠ [] := by
  obtain ⟨v, t, _, rfl, _⟩ := h
  simp

namespace Reader

variable {fuel : Nat}

/-- A declaration takes a token, whatever it is. -/
theorem declaration_length_lt {s : Stmt} (h : declaration fuel c = .ok s c')
    (hc : c.eof.kind = .eof) : c'.rest.length < c.rest.length := by
  obtain ⟨w, htakes, hwritten⟩ := (stmtReadersSound fuel).declaration h hc
  have hclosed : Closes w := hwritten.closed
  rw [htakes.rest_eq, List.length_append]
  have := List.length_pos_iff.mpr hclosed.ne_nil
  omega

/-- Reading past faults goes on to the end of the text, and the tokens that are blamed on the way
stand one behind the other. -/
theorem recoveringProgram_blames {ds : List (Except SyntaxError Stmt)}
    (h : recoveringProgram fuel c = .ok ds c') : c'.rest = [] ∧
      (∀ e ∈ errorsOf ds, c.rest ≠ [] ∧ ∃ d, c.StopsAt e d) ∧
      (errorsOf ds).Pairwise fun e e' => e'.remaining < e.remaining := by
  induction fuel generalizing c ds with
  | zero => cases h
  | succ fuel ih =>
      obtain ⟨hended, rfl, rfl⟩ |
        ⟨hended, ⟨s, c₁, rest, hs, hrest, rfl⟩ | ⟨e, c₁, rest, he, hrest, rfl⟩⟩ :=
          recoveringProgram_succ_eq_ok.mp h
      · exact ⟨List.isEmpty_iff.mp hended, (by simp [errorsOf]), .nil⟩
      all_goals have hne : c.rest ≠ [] := fun hnil => by simp [Cursor.atEnd, hnil] at hended
      · obtain ⟨hend, hblamed, hordered⟩ := ih hrest
        have hforward := ((stmtReadersForward fuel).declaration c).ok hs
        refine ⟨hend, fun e he => ?_, hordered⟩
        obtain ⟨_, d, hstops⟩ := hblamed e he
        exact ⟨hne, d, hstops.of_precedes hforward⟩
      · obtain ⟨hend, hblamed, hordered⟩ := ih hrest
        have hstops := ((stmtReadersForward fuel).declaration c).fault he
        refine ⟨hend, fun e' he' => ?_, List.pairwise_cons.mpr ⟨fun e' he' => ?_, hordered⟩⟩
        · rcases List.mem_cons.mp he' with rfl | he'
          · exact ⟨hne, c₁, hstops⟩
          · obtain ⟨_, d, hstops'⟩ := hblamed e' he'
            exact ⟨hne, d, hstops'.of_precedes (hstops.precedes.trans (.synchronize c₁))⟩
        · -- A later fault lies behind the boundary, and so behind the token where this one stopped.
          obtain ⟨hnext, d, hstops'⟩ := hblamed e' he'
          have hpos := List.length_pos_iff.mpr hnext
          have hsynchronize := c₁.synchronize_length_le
          have hle := hstops.remaining_le.1
          have hle' := hstops'.remaining_le.2
          omega

end Reader

/-- The lines of the tokens of a source text never decrease. -/
theorem pairwise_line_tokens (source : String) :
    (scan source).tokens.Pairwise fun t t' => t.line ≤ t'.line := by
  have hitems := pairwise_line_itemsFrom 1 (segments source.toList)
  refine List.Pairwise.filterMap _ ?_ hitems
  rintro (e | a) (e' | a') hle t ht t' ht' <;> cases ht <;> cases ht'
  exact hle

/-- A fault whose token stands behind that of another one is not on an earlier line, if the lines of
the tokens do not decrease. -/
theorem SyntaxError.line_le (hlines : tokens.Pairwise fun t t' => t.line ≤ t'.line)
    {e' : SyntaxError} (he : e.StandsIn tokens) (he' : e'.StandsIn tokens)
    (h : e.position tokens < e'.position tokens) : e.token.line ≤ e'.token.line := by
  obtain ⟨hlt, htoken⟩ := List.getElem?_eq_some_iff.mp he.token_eq
  obtain ⟨hlt', htoken'⟩ := List.getElem?_eq_some_iff.mp he'.token_eq
  rw [← htoken, ← htoken']
  exact List.pairwise_iff_getElem.mp hlines _ _ hlt hlt' h

/-- Faults for which tokens are blamed that stand one behind the other. -/
structure BlamesInOrder (tokens : List Token) (es : List SyntaxError) : Prop where
  standsIn (e : SyntaxError) : e ∈ es → e.StandsIn tokens
  increasing : es.Pairwise fun e e' => e.position tokens < e'.position tokens

/-- The lines of faults in a source text do not decrease if their tokens stand one behind the
other. -/
theorem BlamesInOrder.pairwise_line {es : List SyntaxError} {source : String}
    (h : BlamesInOrder (scan source).tokens es) :
    es.Pairwise fun e e' => e.token.line ≤ e'.token.line := by
  refine h.increasing.imp_of_mem fun he he' hlt => ?_
  exact SyntaxError.line_le (pairwise_line_tokens source) (h.standsIn _ he) (h.standsIn _ he') hlt

/-- Reading past faults ends at the end of the text, and blames tokens in order. -/
theorem exists_recoveringProgram_eq_ok (base : NodeId)
    (heof : ∃ t ∈ tokens, t.isEof = true) : ∃ ds c',
    Reader.recoveringProgram (readingFuel tokens) (Cursor.ofTokens tokens base) = .ok ds c' ∧
      c'.StandsAt tokens (endPosition tokens) ∧ BlamesInOrder tokens (errorsOf ds) := by
  cases hread : Reader.recoveringProgram (readingFuel tokens) (Cursor.ofTokens tokens base) with
  | ok ds c' =>
      obtain ⟨hend, hblamed, hordered⟩ := Reader.recoveringProgram_blames hread
      have hforward := (Reader.goesForward_recoveringProgram (readingFuel tokens) _).ok hread
      obtain ⟨k, hk⟩ := hforward.exists_standsAt heof
      have hkEnd : k = endPosition tokens := by simpa [hend] using hk.left
      have hin : ∀ e ∈ errorsOf ds, e.StandsIn tokens := fun e he => by
        obtain ⟨_, d, hstops⟩ := hblamed e he
        exact hstops.standsIn heof (.refl _)
      refine ⟨ds, c', rfl, hkEnd ▸ hk, hin, hordered.imp_of_mem fun he he' hlt => ?_⟩
      have hleft := (hin _ he).left
      have hleft' := (hin _ he').left
      omega
  | fault e c' => exact (Reader.recoveringProgram_ne_fault hread).elim
  | exhausted => exact (recoveringProgram_readingFuel_ne_exhausted tokens base hread).elim

/-- Reading up to the first fault ends at the end of the text or at a fault. -/
theorem exists_readProgram_eq (heof : ∃ t ∈ tokens, t.isEof = true) : ∃ result c',
    readProgram tokens base = ⟨result, c'.nextId⟩ ∧
      ((∃ program, result = .ok program ∧ c'.StandsAt tokens (endPosition tokens) ∧
        Reader.program (readingFuel tokens) (Cursor.ofTokens tokens base) = .ok program c') ∨
      ∃ e, result = .error e ∧ (Cursor.ofTokens tokens base).StopsAt e c' ∧
        Reader.program (readingFuel tokens) (Cursor.ofTokens tokens base) = .fault e c') := by
  unfold readProgram
  cases hread : Reader.program (readingFuel tokens) (Cursor.ofTokens tokens base) with
  | ok program c =>
      obtain ⟨ds, c', hpast, hc', _⟩ := exists_recoveringProgram_eq_ok base heof
      rw [Reader.recoveringProgram_of_program_eq_ok hread] at hpast
      cases hpast
      exact ⟨.ok program, c, by simp only [hread], .inl ⟨program, rfl, hc', rfl⟩⟩
  | fault e c =>
      have hstops := (Reader.goesForward_program (readingFuel tokens) _).fault hread
      exact ⟨.error e, c, by simp only [hread], .inr ⟨e, rfl, hstops, rfl⟩⟩
  | exhausted => exact (program_readingFuel_ne_exhausted tokens base hread).elim

/-- From the first of some tokens on, of which the last is an end of the text, every place that
comes later is among the tokens and not behind the first end of the text, and no reader leaves those
places; what is blamed is the token that comes next at one of them. Every declaration that is read
takes a token. Reading up to the first fault and reading past faults both end, the latter at the end
of the text, and the tokens that are blamed on the way have increasing positions and, in a source
text, lines that do not decrease. -/
theorem reading_within_bounds (tokens : List Token) (base : NodeId)
    (heof : ∃ eof, tokens.getLast? = some eof ∧ eof.isEof = true) :
    let start := Cursor.ofTokens tokens base
    start.StandsAt tokens 0 ∧
    (∀ c, start.Precedes c → ∃ k, c.StandsAt tokens k ∧ k ≤ endPosition tokens ∧
      (c.peek.isEof = true ↔ k = endPosition tokens)) ∧
    (∀ c e c', start.Precedes c → c.StopsAt e c' → e.StandsIn tokens) ∧
    (∀ fuel, Reader.ExprReadersForward fuel ∧ Reader.StmtReadersForward fuel ∧
      Reader.GoesForward (Reader.program fuel) ∧
      Reader.GoesForward (Reader.recoveringProgram fuel)) ∧
    (∀ fuel c s c', start.Precedes c → Reader.declaration fuel c = .ok s c' →
      ∃ k k', c.StandsAt tokens k ∧ c'.StandsAt tokens k' ∧ k < k') ∧
    (∃ result c', readProgram tokens base = ⟨result, c'.nextId⟩ ∧
      ((∃ program, result = .ok program ∧ c'.StandsAt tokens (endPosition tokens) ∧
        Reader.program (readingFuel tokens) start = .ok program c') ∨
      ∃ e, result = .error e ∧ start.StopsAt e c' ∧
        Reader.program (readingFuel tokens) start = .fault e c')) ∧
    ∃ ds c', readPastFaults tokens base = ⟨ds, c'.nextId⟩ ∧
      Reader.recoveringProgram (readingFuel tokens) start = .ok ds c' ∧
      c'.StandsAt tokens (endPosition tokens) ∧ BlamesInOrder tokens (errorsOf ds) ∧
      ∀ source, tokens = (scan source).tokens →
        (errorsOf ds).Pairwise fun e e' => e.token.line ≤ e'.token.line := by
  intro start
  have heof : ∃ t ∈ tokens, t.isEof = true := by
    obtain ⟨eof, hlast, heof⟩ := heof
    exact ⟨eof, List.mem_of_getLast? hlast, heof⟩
  have hplaces : ∀ c, start.Precedes c → ∃ k, c.StandsAt tokens k := fun c hc =>
    hc.exists_standsAt heof
  have hstart : start.StandsAt tokens 0 := by
    obtain ⟨k, hk⟩ := hplaces start (.refl start)
    obtain ⟨_, _, _, _, _, hend, hofTokens⟩ := Cursor.exists_ofTokens_eq base heof
    obtain rfl : k = 0 := by
      have hleft := hk.left
      rw [hend, show start = _ from hofTokens] at hleft
      simpa using hleft
    exact hk
  obtain ⟨ds, c', hread, hc', horder⟩ := exists_recoveringProgram_eq_ok base heof
  refine ⟨hstart, fun c hc => ?_, fun c e c' hc hstops => hstops.standsIn heof hc, fun fuel => ?_,
    fun fuel c s c' hc hs => ?_, exists_readProgram_eq heof, ds, c', ?_, hread, hc', horder, ?_⟩
  · obtain ⟨k, hk⟩ := hplaces c hc
    exact ⟨k, hk, hk.le_endPosition, hk.isEof_peek_iff⟩
  · exact ⟨Reader.exprReadersForward fuel, Reader.stmtReadersForward fuel,
      Reader.goesForward_program fuel, Reader.goesForward_recoveringProgram fuel⟩
  · obtain ⟨k, hk⟩ := hplaces c hc
    have hforward := ((Reader.stmtReadersForward fuel).declaration c).ok hs
    obtain ⟨k', hk'⟩ := hplaces c' (hc.trans hforward)
    have hc : c.eof.kind = .eof := by
      rw [hc.eof_eq]
      exact (Cursor.ofTokens_finishes tokens base).1
    have hlt := Reader.declaration_length_lt hs hc
    have hleft := hk.left
    have hleft' := hk'.left
    exact ⟨k, k', hk, hk', by omega⟩
  · unfold readPastFaults
    simp only [hread]
  · rintro source rfl
    exact horder.pairwise_line

/-- For example, of two faults, of which the first is at a semicolon and the second behind it. -/
theorem reading_within_bounds_of_semicolon :
    let tokens : List Token := [⟨.mark .semicolon, ";", 1⟩, ⟨.mark .rightParen, ")", 1⟩,
      ⟨.mark .semicolon, ";", 2⟩, ⟨.eof, "", 2⟩, ⟨.eof, "", 3⟩]
    (∃ eof, tokens.getLast? = some eof ∧ eof.isEof = true) ∧
    ∃ ds, ∃ c' : Cursor, readPastFaults tokens 7 = ⟨ds, c'.nextId⟩ ∧ c'.StandsAt tokens 3 ∧
      BlamesInOrder tokens (errorsOf ds) ∧
      (errorsOf ds).map (SyntaxError.position tokens) = [0, 1] := by
  intro tokens
  have heof : ∃ eof, tokens.getLast? = some eof ∧ eof.isEof = true := ⟨⟨.eof, "", 3⟩, rfl, rfl⟩
  obtain ⟨_, _, _, _, _, _, ds, c', hread, _, hc', horder, _⟩ := reading_within_bounds tokens 7 heof
  refine ⟨heof, ds, c', hread, hc', horder, ?_⟩
  have hds : ds = (readPastFaults tokens 7).result := by rw [hread]
  rw [hds]
  decide +kernel

end ScopedScript
