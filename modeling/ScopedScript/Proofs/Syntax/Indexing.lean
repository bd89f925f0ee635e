import ScopedScript.Proofs.Syntax.Positions
import ScopedScript.Syntax.Indexed

/-!
# Places by number never leave the tokens

A place by number and a place by what is left show the same if the tokens from that number on are
those that are left, the end of the text and what is behind it. Then every access by number has an
answer, the one that the other place gives, and moving on leads to two places that show the same
again. Every place that a reader comes to is shown by some number in this way, so no reader needs a
token that is not there.
-/

namespace ScopedScript

/-- A place by number at which comes next what is left at another place. -/
structure IndexedCursor.Shows (x : IndexedCursor) (c : Cursor) : Prop where
  drop_eq : ∃ behind, x.tokens.drop x.current = c.rest ++ c.eof :: behind
  nextId_eq : x.nextId = c.nextId
  isEof_taken : ∀ t ∈ x.tokens.take x.current, t.isEof = false
  isEof_rest : ∀ t ∈ c.rest, t.isEof = false
  isEof_eof : c.eof.isEof = true

namespace IndexedCursor.Shows

variable {x : IndexedCursor} {c : Cursor} {t : Token} {rest : List Token} {m : Mark}

theorem current_lt (h : x.Shows c) : x.current < x.tokens.length := by
  obtain ⟨behind, hdrop⟩ := h.drop_eq
  have hlength := congrArg List.length hdrop
  rw [List.length_drop, List.length_append, List.length_cons] at hlength
  omega

/-- The end of the text has not been passed. -/
theorem current_le_endPosition (h : x.Shows c) : x.current ≤ endPosition x.tokens := by
  have hlength : (x.tokens.take x.current).length = x.current :=
    List.length_take_of_le (Nat.le_of_lt h.current_lt)
  rw [endPosition, ← List.take_append_drop x.current x.tokens, List.findIdx_append,
    List.findIdx_eq_length.mpr h.isEof_taken, if_neg (Nat.lt_irrefl _), hlength]
  exact Nat.le_add_left ..

theorem peek?_eq (h : x.Shows c) : x.peek? = some c.peek := by
  obtain ⟨behind, hdrop⟩ := h.drop_eq
  rw [peek?, ← List.head?_drop, hdrop, Cursor.peek]
  cases c.rest with
  | nil | cons _ _ => rfl

theorem atEnd?_eq (h : x.Shows c) : x.atEnd? = some c.atEnd := by
  rw [atEnd?, h.peek?_eq, Option.map_some, Cursor.peek, Cursor.atEnd]
  cases hrest : c.rest with
  | nil => exact congrArg some h.isEof_eof
  | cons t rest => exact congrArg some (h.isEof_rest t (hrest ▸ List.mem_cons_self))

/-- There is a token to look back at, even at the very beginning. -/
theorem exists_previous? (h : x.Shows c) : ∃ t, x.previous? = some t := by
  have hlt : x.current - 1 < x.tokens.length :=
    Nat.lt_of_le_of_lt (Nat.sub_le _ _) h.current_lt
  exact ⟨_, List.getElem?_eq_getElem hlt⟩

/-- Behind a token that is left, what comes next is what is left without it, and it is the token to
look back at. -/
theorem succ (h : x.Shows c) (hrest : c.rest = t :: rest) :
    ({ x with current := x.current + 1 } : IndexedCursor).Shows { c with rest := rest } ∧
      ({ x with current := x.current + 1 } : IndexedCursor).previous? = some t := by
  obtain ⟨behind, hdrop⟩ := h.drop_eq
  have hpeek : x.tokens[x.current]? = some t := by
    rw [← List.head?_drop, hdrop, hrest]
    rfl
  have hisEof : ∀ d ∈ t :: rest, d.isEof = false := hrest ▸ h.isEof_rest
  refine ⟨⟨⟨behind, ?_⟩, h.nextId_eq, ?_, ?_, h.isEof_eof⟩, hpeek⟩
  · rw [← List.tail_drop, hdrop, hrest]
    rfl
  · rw [List.take_add_one, hpeek]
    intro d hd
    rcases List.mem_append.mp hd with hd | hd
    · exact h.isEof_taken d hd
    · exact hisEof d (List.mem_singleton.mp hd ▸ List.mem_cons_self)
  · exact fun d hd => hisEof d (List.mem_cons_of_mem t hd)

theorem advance?_of_cons (h : x.Shows c) (hrest : c.rest = t :: rest) :
    x.advance? = some (t, { x with current := x.current + 1 }) := by
  have hend : x.atEnd? = some false := by
    rw [h.atEnd?_eq, Cursor.atEnd, hrest]
    rfl
  simp [advance?, hend, (h.succ hrest).2]

/-- The end of the text is not passed. -/
theorem advance?_of_nil (h : x.Shows c) (hrest : c.rest = []) :
    ∃ t, x.advance? = some (t, x) := by
  have hend : x.atEnd? = some true := by
    rw [h.atEnd?_eq, Cursor.atEnd, hrest]
    rfl
  obtain ⟨t, ht⟩ := h.exists_previous?
  exact ⟨t, by simp [advance?, hend, ht]⟩

/-- Moving on has an answer: the token that was next, unless that was the end of the text. -/
theorem exists_advance? (h : x.Shows c) : ∃ t x', x.advance? = some (t, x') ∧
    x'.Shows c.advance ∧ (c.atEnd = false → t = c.peek) := by
  cases hrest : c.rest with
  | nil =>
      obtain ⟨t, ht⟩ := h.advance?_of_nil hrest
      refine ⟨t, x, ht, ?_, fun hend => by simp [Cursor.atEnd, hrest] at hend⟩
      rwa [Cursor.advance, hrest, List.tail_nil, ← hrest]
  | cons t rest =>
      refine ⟨t, _, h.advance?_of_cons hrest, ?_, fun _ => ?_⟩
      · rw [Cursor.advance, hrest]
        exact (h.succ hrest).1
      · rw [Cursor.peek, hrest]
        rfl

theorem sees?_eq (h : x.Shows c) : x.sees? m = some (!c.atEnd && c.peek.isMark m) := by
  simp only [sees?, h.atEnd?_eq, h.peek?_eq]
  cases c.atEnd <;> rfl

/-- A mark is accepted by number as it is by the reader. -/
theorem exists_accept? (h : x.Shows c) : ∃ b x' c', x.accept? m = some (b, x') ∧
    Reader.accept m c = .ok b c' ∧ x'.Shows c' := by
  have hsees := h.sees?_eq (m := m)
  unfold Reader.accept
  cases hmark : !c.atEnd && c.peek.isMark m with
  | false =>
      rw [hmark] at hsees
      have hread : Reader.sees m c = .ok false c := congrArg (Outcome.ok · c) hmark
      rw [Run.bind_of_ok hread]
      exact ⟨false, x, c, by simp [accept?, hsees], rfl, h⟩
  | true =>
      rw [hmark] at hsees
      have hread : Reader.sees m c = .ok true c := congrArg (Outcome.ok · c) hmark
      obtain ⟨t, x', hadvance, hx', _⟩ := h.exists_advance?
      rw [Run.bind_of_ok hread]
      exact ⟨true, x', c.advance, by simp [accept?, hsees, hadvance], rfl, hx'⟩

/-- A mark is expected by number as it is by the reader, and the same token is blamed if it does not
come. -/
theorem exists_expect? (h : x.Shows c) (fault : SyntaxFault) :
    (∃ t x' c', x.expect? m = some (.ok t, x') ∧ Reader.expect m fault c = .ok t c' ∧
      x'.Shows c') ∨
    ∃ e, x.expect? m = some (.error e.token, x) ∧ Reader.expect m fault c = .fault e c := by
  have hsees := h.sees?_eq (m := m)
  unfold Reader.expect
  cases hmark : !c.atEnd && c.peek.isMark m with
  | false =>
      rw [hmark] at hsees
      have hread : Reader.sees m c = .ok false c := congrArg (Outcome.ok · c) hmark
      rw [Run.bind_of_ok hread]
      exact .inr ⟨c.blame fault, by simp [expect?, hsees, h.peek?_eq, Cursor.blame], rfl⟩
  | true =>
      rw [hmark] at hsees
      have hread : Reader.sees m c = .ok true c := congrArg (Outcome.ok · c) hmark
      obtain ⟨t, x', hadvance, hx', ht⟩ := h.exists_advance?
      obtain rfl : t = c.peek := ht (by simpa using (Bool.and_eq_true_iff.mp hmark).1)
      rw [Run.bind_of_ok hread]
      exact .inl ⟨c.peek, x', c.advance, by simp [expect?, hsees, hadvance], rfl, hx'⟩

theorem toBoundary?_of_nil (h : x.Shows c) (hrest : c.rest = []) : x.toBoundary? = some x := by
  rw [toBoundary?, dif_pos h.current_lt]
  simp [h.atEnd?_eq, Cursor.atEnd, hrest]

theorem toBoundary?_of_cons {previous : Token} (h : x.Shows c) (hrest : c.rest = t :: rest)
    (hprevious : x.previous? = some previous) : x.toBoundary? =
      if previous.isMark .semicolon || Cursor.startsStatement t then some x
      else toBoundary? { x with current := x.current + 1 } := by
  have hend : c.atEnd = false := by
    rw [Cursor.atEnd, hrest]
    rfl
  have hpeek : c.peek = t := by
    rw [Cursor.peek, hrest]
    rfl
  rw [toBoundary?, dif_pos h.current_lt, h.atEnd?_eq, h.peek?_eq, hprevious, hend, hpeek]
  rfl

/-- The boundary that is found by number is the one that is found in what is left. -/
theorem exists_toBoundary? (h : x.Shows c) (hprevious : x.previous? = some t) :
    ∃ x', x.toBoundary? = some x' ∧ x'.Shows { c with rest := Cursor.fromBoundary t c.rest } := by
  obtain ⟨left, eof, nextId⟩ := c
  induction left generalizing x t with
  | nil => exact ⟨x, h.toBoundary?_of_nil rfl, h⟩
  | cons d left ih =>
      rw [h.toBoundary?_of_cons rfl hprevious, Cursor.fromBoundary]
      split
      next => exact ⟨x, rfl, h⟩
      next =>
        obtain ⟨hsucc, hlast⟩ := h.succ rfl
        exact ih hlast hsucc

/-- After a fault, reading goes on at the same place by number. -/
theorem exists_synchronize? (h : x.Shows c) :
    ∃ x', x.synchronize? = some x' ∧ x'.Shows c.synchronize := by
  cases hrest : c.rest with
  | nil =>
      obtain ⟨t, ht⟩ := h.advance?_of_nil hrest
      refine ⟨x, ?_, ?_⟩
      · rw [synchronize?, ht]
        exact h.toBoundary?_of_nil hrest
      · rw [Cursor.synchronize, hrest]
        exact h
  | cons t rest =>
      obtain ⟨hsucc, hlast⟩ := h.succ hrest
      obtain ⟨x', hx', hshows⟩ := hsucc.exists_toBoundary? hlast
      refine ⟨x', ?_, ?_⟩
      · rw [synchronize?, h.advance?_of_cons hrest]
        exact hx'
      · rw [Cursor.synchronize, hrest]
        exact hshows

/-- Behind any of the tokens that are left there is a place by number. -/
theorem exists_past {taken : List Token} (h : x.Shows c) (hrest : c.rest = taken ++ rest) :
    ∃ k, x.current ≤ k ∧
      ({ x with current := k } : IndexedCursor).Shows { c with rest := rest } := by
  induction taken generalizing x c with
  | nil =>
      rw [List.nil_append] at hrest
      exact ⟨x.current, Nat.le_refl _, hrest ▸ h⟩
  | cons t taken ih =>
      obtain ⟨k, hle, hk⟩ := ih (h.succ hrest).1 rfl
      exact ⟨k, Nat.le_of_succ_le hle, hk⟩

end IndexedCursor.Shows

section Places

variable {tokens : List Token} {base : NodeId} (heof : ∃ t ∈ tokens, t.isEof = true)
include heof

/-- Reading begins at the same place by number. -/
theorem IndexedCursor.shows_ofTokens :
    (ofTokens tokens base).Shows (Cursor.ofTokens tokens base) := by
  obtain ⟨front, eof, behind, htokens, heof, _, hstart⟩ := Cursor.exists_ofTokens_eq base heof
  have hfront : ∀ t ∈ front, t.isEof = false := by
    have hrest : (Cursor.ofTokens tokens base).rest = front := congrArg Cursor.rest hstart
    intro t ht
    rw [← hrest] at ht
    simpa using List.mem_takeWhile_imp ht
  rw [hstart]
  exact ⟨⟨behind, htokens⟩, rfl, fun t ht => (List.not_mem_nil ht).elim, hfront,
    Token.isEof_iff.mpr heof⟩

/-- Every place that a reader comes to is one by number, not behind the end of the text. -/
theorem Cursor.Precedes.exists_shows {c : Cursor} (h : (ofTokens tokens base).Precedes c) :
    ∃ k, (⟨tokens, k, c.nextId⟩ : IndexedCursor).Shows c ∧ k ≤ endPosition tokens := by
  obtain ⟨taken, hsplit⟩ := h.rest_suffix
  obtain ⟨k, _, hk⟩ := (IndexedCursor.shows_ofTokens heof).exists_past hsplit.symm
  refine ⟨k, ⟨?_, rfl, hk.isEof_taken, hk.isEof_rest, ?_⟩, hk.current_le_endPosition⟩
  · rw [h.eof_eq]
    exact hk.drop_eq
  · rw [h.eof_eq]
    exact hk.isEof_eof

end Places

end ScopedScript
