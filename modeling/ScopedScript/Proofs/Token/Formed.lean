import ScopedScript.Proofs.Token.MaximalMunch

/-!
# Segments as the lexical grammar has them

The segments of a source text are as the lexical grammar has them. So a newline is in none of them
but strings and the one that is nothing else, and counting lines there counts all newlines.
-/

namespace ScopedScript

namespace Segment

/-- A segment is as the lexical grammar has it. -/
def Formed : Segment → Prop
  | mark _ | newline => True
  | string body _ => '"' ∉ body
  | number whole fraction => SegmentSort.IsDigits whole ∧ ∀ c ∈ fraction, c.isDigit
  | brokenNumber whole => SegmentSort.IsDigits whole
  | word w => ∃ c cs, w = c :: cs ∧ isWordStart c ∧ ∀ d ∈ cs, isWordRest d
  | blank c => isBlank c
  | comment body => '\n' ∉ body
  | stray c => ∀ sort : SegmentSort, sort.starts c = false

variable {c : Char} {cs : List Char}

theorem formed_nextString : (nextString cs).1.Formed := by
  have hbody : '"' ∉ cs.takeWhile (· != '"') := by
    intro hmem
    simpa using List.mem_takeWhile_imp hmem
  unfold nextString
  split
  next => exact hbody
  next => exact hbody

theorem formed_nextNumber {whole : List Char} (h : SegmentSort.IsDigits whole) :
    (nextNumber whole cs).1.Formed := by
  unfold nextNumber
  split
  next cs =>
    dsimp only
    split
    next => exact h
    next => exact ⟨h, fun _ hd => List.mem_takeWhile_imp hd⟩
  next => exact ⟨h, fun _ hd => (List.not_mem_nil hd).elim⟩

theorem formed_nextMark (h : Mark.ofChar? c = none → ∀ sort : SegmentSort, sort.starts c = false) :
    (nextMark c cs).1.Formed := by
  unfold nextMark
  split
  next => trivial
  next =>
    split
    next => trivial
    next hnone => exact h hnone

/-- The first segment of a text is as the lexical grammar has it. -/
theorem formed_next (c : Char) (cs : List Char) : (next c cs).1.Formed := by
  unfold next
  split
  next hblank => exact hblank
  next hblank =>
  split
  next => trivial
  next hnewline =>
  split
  next => exact formed_nextString
  next hquote =>
  split
  next hdigit =>
    refine formed_nextNumber ⟨List.cons_ne_nil _ _, ?_⟩
    exact List.forall_mem_cons.mpr ⟨hdigit, fun _ hd => List.mem_takeWhile_imp hd⟩
  next hdigit =>
  split
  next hword => exact ⟨c, _, rfl, hword, fun _ hd => List.mem_takeWhile_imp hd⟩
  next hword =>
  split
  next =>
    intro hmem
    simpa using List.mem_takeWhile_imp hmem
  next =>
    refine formed_nextMark fun hnone sort => ?_
    cases sort with
    | operator => simp [SegmentSort.starts, hnone]
    | string => simp [SegmentSort.starts, hquote]
    | number | brokenNumber => simpa [SegmentSort.starts] using hdigit
    | word => simpa [SegmentSort.starts, isWordStart] using hword
    | blank => simpa [SegmentSort.starts, isBlank] using hblank
    | newline => simp [SegmentSort.starts, hnewline]
    | comment =>
        have hslash : c ≠ '/' := by
          rintro rfl
          cases hnone
        simp [SegmentSort.starts, hslash]

/-- How many newlines there are in a segment. -/
def newlines (s : Segment) : Nat := s.text.count '\n'

theorem count_eq_zero_of_forall {p : Char → Bool} (h : ∀ c ∈ cs, p c)
    (hp : p '\n' = false) : cs.count '\n' = 0 :=
  List.count_eq_zero.mpr fun hmem => by simp [h _ hmem] at hp

/-- Lines end with a newline that stands for itself, or inside a string, and nowhere else. -/
theorem Formed.newlines_eq {s : Segment} (h : s.Formed) : s.newlines = s.advance := by
  have hdigits {cs : List Char} (hcs : ∀ c ∈ cs, c.isDigit) : cs.count '\n' = 0 :=
    count_eq_zero_of_forall hcs rfl
  unfold newlines
  cases s with
  | mark m => cases m <;> rfl
  | string body closed => cases closed <;> simp [text, advance]
  | number whole fraction =>
      cases fraction with
      | nil => simpa [text, advance] using hdigits h.1.2
      | cons d ds => simp [text, advance, hdigits h.1.2, hdigits h.2]
  | brokenNumber whole => simp [text, advance, hdigits h.2]
  | word w =>
      obtain ⟨c, cs, rfl, hc, hcs⟩ := h
      have hrest := count_eq_zero_of_forall hcs rfl
      have hne : c ≠ '\n' := by
        rintro rfl
        cases hc
      simp [text, advance, hrest, hne]
  | blank c =>
      have hne : c ≠ '\n' := by
        rintro rfl
        cases h
      simp [text, advance, hne]
  | newline => rfl
  | comment body => simpa [text, advance] using List.count_eq_zero.mpr h
  | stray c =>
      have hne : c ≠ '\n' := by
        rintro rfl
        cases h .newline
      simp [text, advance, hne]

end Segment

theorem formed_of_mem_segments {cs : List Char} {s : Segment} (h : s ∈ segments cs) :
    s.Formed := by
  fun_induction segments cs with
  | case1 => exact (List.not_mem_nil h).elim
  | case2 c cs ih =>
      rcases List.mem_cons.mp h with rfl | hlater
      · exact Segment.formed_next c cs
      · exact ih hlater

/-- The segments of a text move the lines on by the newlines of the text. -/
theorem sum_advance_segments (cs : List Char) :
    ((segments cs).map Segment.advance).sum = cs.count '\n' := by
  have hsegments (segs : List Segment) (h : ∀ s ∈ segs, s.Formed) :
      (segs.map Segment.advance).sum = (segs.flatMap Segment.text).count '\n' := by
    induction segs with
    | nil => rfl
    | cons s rest ih =>
        obtain ⟨hs, hrest⟩ := List.forall_mem_cons.mp h
        rw [List.map_cons, List.sum_cons, List.flatMap_cons, List.count_append, ih hrest,
          ← hs.newlines_eq, Segment.newlines]
  rw [hsegments _ fun s hs => formed_of_mem_segments hs, flatMap_text_segments]

end ScopedScript
