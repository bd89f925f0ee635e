import Mathlib
import ScopedScript.Token.Lexer

/-!
# Lexical analysis by the longest match

The lexical grammar is stated here as a predicate on stretches of text, sort by sort, without
saying how a text is searched. A source text is cut into segments each of which is the longest
stretch of any sort that begins where the one before it ended; a character that begins no such
stretch stands alone. What the segments give, one by one, is the whole list of items.
-/

namespace ScopedScript

/-- The sorts of segments that the lexical grammar knows. -/
inductive SegmentSort where
  | operator | string | number | brokenNumber | word | blank | newline | comment
  deriving DecidableEq, Repr

namespace SegmentSort

/-- A run of at least one digit. -/
def IsDigits (cs : List Char) : Prop := cs ≠ [] ∧ ∀ c ∈ cs, c.isDigit

/-- Whether the stretch `w` of a text belongs to a sort, when `rest` is what follows it in the
text. What follows matters only for a string that is not closed: it has to reach the end. -/
def Admits (w rest : List Char) : SegmentSort → Prop
  | operator => ∃ m : Mark, w = m.spelling
  | string => ∃ body, '"' ∉ body ∧ (w = '"' :: body ++ ['"'] ∨ w = '"' :: body ∧ rest = [])
  | number => ∃ whole, IsDigits whole ∧
      (w = whole ∨ ∃ fraction, IsDigits fraction ∧ w = whole ++ '.' :: fraction)
  | brokenNumber => ∃ whole, IsDigits whole ∧ w = whole ++ ['.']
  | word => ∃ c cs, w = c :: cs ∧ (c.isAlpha ∨ c = '_') ∧ ∀ d ∈ cs, d.isAlphanum ∨ d = '_'
  | blank => w = [' '] ∨ w = ['\r'] ∨ w = ['\t']
  | newline => w = ['\n']
  | comment => ∃ body, '\n' ∉ body ∧ w = '/' :: '/' :: body

/-- Whether a segment of a sort can begin with a character. -/
def starts (c : Char) : SegmentSort → Bool
  | operator => (Mark.ofChar? c).isSome
  | string => c = '"'
  | number | brokenNumber => c.isDigit
  | word => c.isAlpha || c = '_'
  | blank => c = ' ' || c = '\r' || c = '\t'
  | newline => c = '\n'
  | comment => c = '/'

/-- `w` is the longest stretch of any sort at the beginning of a text that goes on with `rest`. -/
def IsLongest (sort : SegmentSort) (w rest : List Char) : Prop :=
  sort.Admits w rest ∧ ∀ (sort' : SegmentSort) (w' rest' : List Char),
    w' ++ rest' = w ++ rest → sort'.Admits w' rest' → w'.length ≤ w.length

/-- No stretch of any sort stands at the beginning of a text. -/
def NoneAt (text : List Char) : Prop :=
  ∀ (sort : SegmentSort) (w rest : List Char), w ++ rest = text → ¬sort.Admits w rest

theorem exists_spelling_eq_cons (m : Mark) :
    ∃ c cs, m.spelling = c :: cs ∧ (Mark.ofChar? c).isSome := by
  cases m <;> exact ⟨_, _, rfl, rfl⟩

/-- A stretch of some sort is not empty, and begins with a character that its sort allows. -/
theorem Admits.exists_cons {sort : SegmentSort} {w rest : List Char} (h : sort.Admits w rest) :
    ∃ c cs, w = c :: cs ∧ sort.starts c := by
  have hdigits {whole : List Char} (hwhole : IsDigits whole) :
      ∃ c cs, whole = c :: cs ∧ c.isDigit := by
    obtain ⟨hne, hall⟩ := hwhole
    obtain ⟨c, cs, rfl⟩ := List.exists_cons_of_ne_nil hne
    exact ⟨c, cs, rfl, hall c List.mem_cons_self⟩
  cases sort with
  | operator =>
      obtain ⟨m, rfl⟩ := h
      exact exists_spelling_eq_cons m
  | string =>
      obtain ⟨body, _, rfl | ⟨rfl, _⟩⟩ := h
      · exact ⟨_, _, rfl, rfl⟩
      · exact ⟨_, _, rfl, rfl⟩
  | number =>
      obtain ⟨whole, hwhole, rfl | ⟨fraction, _, rfl⟩⟩ := h
      · exact hdigits hwhole
      · obtain ⟨c, cs, rfl, hc⟩ := hdigits hwhole
        exact ⟨c, _, rfl, hc⟩
  | brokenNumber =>
      obtain ⟨whole, hwhole, rfl⟩ := h
      obtain ⟨c, cs, rfl, hc⟩ := hdigits hwhole
      exact ⟨c, _, rfl, hc⟩
  | word =>
      obtain ⟨c, cs, rfl, hc, _⟩ := h
      exact ⟨c, cs, rfl, by simpa [starts] using hc⟩
  | blank =>
      obtain rfl | rfl | rfl := h
      · exact ⟨_, _, rfl, rfl⟩
      · exact ⟨_, _, rfl, rfl⟩
      · exact ⟨_, _, rfl, rfl⟩
  | newline =>
      cases h
      exact ⟨_, _, rfl, rfl⟩
  | comment =>
      obtain ⟨body, _, rfl⟩ := h
      exact ⟨_, _, rfl, rfl⟩

/-- The sorts of the segments that can begin with a character. -/
def startedBy (c : Char) : List SegmentSort :=
  if Segment.isBlank c then [blank]
  else if c = '\n' then [newline]
  else if c = '"' then [string]
  else if c.isDigit then [number, brokenNumber]
  else if Segment.isWordStart c then [word]
  else if c = '/' then [operator, comment]
  else [operator]

theorem startedBy_of_isDigit {c : Char} (h : c.isDigit) :
    startedBy c = [number, brokenNumber] := by
  have hne {d : Char} (hd : d.isDigit = false) : c ≠ d := by
    rintro rfl
    simp [h] at hd
  simp [startedBy, Segment.isBlank, h, hne (d := ' ') rfl, hne (d := '\r') rfl,
    hne (d := '\t') rfl, hne (d := '\n') rfl, hne (d := '"') rfl]

theorem isDigit_of_isWordStart {c : Char} (h : Segment.isWordStart c) : c.isDigit = false := by
  rcases Bool.or_eq_true _ _ ▸ h with halpha | hunderscore
  · simp only [Char.isAlpha, Char.isUpper, Char.isLower, Char.isDigit, Bool.or_eq_true,
      Bool.and_eq_true, decide_eq_true_eq, Bool.and_eq_false_iff, decide_eq_false_iff_not,
      UInt32.le_iff_toNat_le, ge_iff_le] at halpha ⊢
    have : 'A'.val.toNat = 65 := rfl
    have : 'a'.val.toNat = 97 := rfl
    have : '9'.val.toNat = 57 := rfl
    omega
  · obtain rfl : c = '_' := by simpa using hunderscore
    rfl

theorem startedBy_of_isWordStart {c : Char} (h : Segment.isWordStart c) :
    startedBy c = [word] := by
  have hne {d : Char} (hd : Segment.isWordStart d = false) : c ≠ d := by
    rintro rfl
    simp [h] at hd
  have hdigit : c.isDigit = false := isDigit_of_isWordStart h
  simp [startedBy, Segment.isBlank, h, hdigit, hne (d := ' ') rfl, hne (d := '\r') rfl,
    hne (d := '\t') rfl, hne (d := '\n') rfl, hne (d := '"') rfl]

theorem mem_startedBy_of_starts {sort : SegmentSort} {c : Char} (h : sort.starts c) :
    sort ∈ startedBy c := by
  cases sort with
  | operator =>
      obtain ⟨m, hm⟩ := Option.isSome_iff_exists.mp h
      unfold Mark.ofChar? at hm
      split at hm <;> first | decide | simp at hm
  | string =>
      obtain rfl : c = '"' := by simpa [starts] using h
      decide
  | number => simp [startedBy_of_isDigit h]
  | brokenNumber => simp [startedBy_of_isDigit h]
  | word =>
      have hword : Segment.isWordStart c := by simpa [starts, Segment.isWordStart] using h
      simp [startedBy_of_isWordStart hword]
  | blank =>
      have hblank : Segment.isBlank c := by simpa [starts, Segment.isBlank] using h
      simp [startedBy, hblank]
  | newline =>
      obtain rfl : c = '\n' := by simpa [starts] using h
      decide
  | comment =>
      obtain rfl : c = '/' := by simpa [starts] using h
      decide

/-- The sorts of the stretches at the beginning of `c :: cs` are among those that `c` begins. -/
theorem Admits.mem_startedBy {sort : SegmentSort} {w rest cs : List Char} {c : Char}
    (h : sort.Admits w rest) (heq : w ++ rest = c :: cs) : sort ∈ startedBy c := by
  obtain ⟨d, ds, rfl, hd⟩ := h.exists_cons
  obtain rfl : d = c := by simpa using congrArg List.head? heq
  exact mem_startedBy_of_starts hd

end SegmentSort

namespace Segment

/-- The sort of a segment; a character that stands alone has none. -/
def sort? : Segment → Option SegmentSort
  | mark _ => some .operator
  | string _ _ => some .string
  | number _ _ => some .number
  | brokenNumber _ => some .brokenNumber
  | word _ => some .word
  | blank _ => some .blank
  | newline => some .newline
  | comment _ => some .comment
  | stray _ => none

/-- A segment is the longest stretch of any sort that begins where it begins, or a single
character where no stretch of any sort begins. -/
def IsMaximal (s : Segment) (rest : List Char) : Prop :=
  match s.sort? with
  | some sort => sort.IsLongest s.text rest
  | none => s.text.length = 1 ∧ SegmentSort.NoneAt (s.text ++ rest)

theorem length_le_length_takeWhile {p : Char → Bool} {w rest cs : List Char}
    (hw : ∀ c ∈ w, p c) (heq : w ++ rest = cs) : w.length ≤ (cs.takeWhile p).length := by
  subst heq
  rw [List.takeWhile_append_of_pos hw]
  simp

/-- A run of characters ends where the text does or goes on with a character of another kind. -/
theorem takeWhile_dropWhile_append {p : Char → Bool} {w rest : List Char} (hw : ∀ c ∈ w, p c)
    (hrest : ∀ d ∈ rest.head?, p d = false) :
    (w ++ rest).takeWhile p = w ∧ (w ++ rest).dropWhile p = rest := by
  rw [List.takeWhile_append_of_pos hw, List.dropWhile_append_of_pos hw]
  cases rest with
  | nil => exact ⟨List.append_nil w, rfl⟩
  | cons d after => simp [hrest d rfl]

/-- A run of characters that is followed by a character of another kind is as long as it gets. -/
theorem takeWhile_dropWhile_of_append {p : Char → Bool} {w rest cs : List Char} {d : Char}
    (hw : ∀ c ∈ w, p c) (hd : p d = false) (heq : w ++ d :: rest = cs) :
    cs.takeWhile p = w ∧ cs.dropWhile p = d :: rest := by
  subst heq
  exact takeWhile_dropWhile_append hw (by simpa using hd)

theorem isMaximal_blank {c : Char} (h : isBlank c) (cs : List Char) :
    (blank c).IsMaximal cs := by
  refine ⟨?_, ?_⟩
  · have hc : (c = ' ' ∨ c = '\r') ∨ c = '\t' := by simpa [isBlank] using h
    obtain (rfl | rfl) | rfl := hc <;> simp [SegmentSort.Admits, text]
  · intro sort w rest heq hadmits
    have hsort := hadmits.mem_startedBy heq
    obtain rfl : sort = .blank := by simpa [SegmentSort.startedBy, h] using hsort
    obtain rfl | rfl | rfl := hadmits <;> simp [text]

theorem isMaximal_newline (cs : List Char) : newline.IsMaximal cs := by
  refine ⟨rfl, ?_⟩
  intro sort w rest heq hadmits
  have hsort := hadmits.mem_startedBy heq
  obtain rfl : sort = .newline := by simpa [SegmentSort.startedBy, isBlank] using hsort
  cases hadmits
  simp [text]

theorem isMaximal_nextString (cs : List Char) :
    (nextString cs).1.IsMaximal (nextString cs).2 := by
  have hbody : '"' ∉ cs.takeWhile (· != '"') := by
    intro hmem
    simpa using List.mem_takeWhile_imp hmem
  have hnotQuote {body : List Char} (hnot : '"' ∉ body) : ∀ c ∈ body, (c != '"') = true := by
    intro c hc
    simpa using fun heq : c = '"' => hnot (heq ▸ hc)
  have hsort {sort : SegmentSort} {w rest : List Char} (hadmits : sort.Admits w rest)
      (heq : w ++ rest = '"' :: cs) : sort = .string := by
    simpa [SegmentSort.startedBy, isBlank] using hadmits.mem_startedBy heq
  have htext := text_nextString cs
  unfold nextString at htext ⊢
  cases hdrop : cs.dropWhile (· != '"') with
  | nil =>
      simp only [hdrop] at htext
      refine ⟨⟨_, hbody, Or.inr ⟨by simp [text], rfl⟩⟩, ?_⟩
      intro sort w rest heq _
      have hlength := congrArg List.length heq
      dsimp only at hlength ⊢
      simp only [List.length_append, List.length_nil] at hlength
      omega
  | cons d after =>
      have hhead := List.head_dropWhile_not (· != '"') (w := hdrop ▸ List.cons_ne_nil d after)
      obtain rfl : d = '"' := by simpa [hdrop] using hhead
      simp only [hdrop] at htext
      refine ⟨⟨_, hbody, Or.inl (by simp [text])⟩, ?_⟩
      intro sort w rest heq hadmits
      rw [htext] at heq
      obtain rfl := hsort hadmits heq
      obtain ⟨body, hnot, rfl | ⟨rfl, rfl⟩⟩ := hadmits
      · have hsplit : body ++ '"' :: rest = cs := by simpa using heq
        have hrun := takeWhile_dropWhile_of_append (hnotQuote hnot) (by simp) hsplit
        simp [text, hrun.1]
      · -- a string that is not closed has no quote after it, but one was found
        have hcs : body = cs := by simpa using heq
        subst hcs
        rw [List.dropWhile_eq_nil_iff.mpr (hnotQuote hnot)] at hdrop
        cases hdrop

/-- A stretch that starts with a digit is no longer than the digits there, or else than these, a
point after them and the digits after the point. -/
theorem length_le_of_isDigit {sort : SegmentSort} {w after cs : List Char} {c : Char}
    (hc : c.isDigit) (hadmits : sort.Admits w after) (heq : w ++ after = c :: cs) :
    w.length ≤ ((c :: cs).takeWhile Char.isDigit).length ∨
      ∃ more, (c :: cs).dropWhile Char.isDigit = '.' :: more ∧
        w.length ≤ ((c :: cs).takeWhile Char.isDigit).length + 1 +
          (more.takeWhile Char.isDigit).length := by
  have hpoint : ('.').isDigit = false := rfl
  have hsort : sort = .number ∨ sort = .brokenNumber := by
    simpa [SegmentSort.startedBy_of_isDigit hc] using hadmits.mem_startedBy heq
  obtain rfl | rfl := hsort
  · obtain ⟨digits, ⟨_, hall⟩, rfl | ⟨fraction, ⟨_, hfraction⟩, rfl⟩⟩ := hadmits
    · exact Or.inl (length_le_length_takeWhile hall heq)
    · have hsplit : digits ++ '.' :: (fraction ++ after) = c :: cs := by simpa using heq
      obtain ⟨hdigits, hdrop⟩ := takeWhile_dropWhile_of_append hall hpoint hsplit
      have hle := length_le_length_takeWhile hfraction (rfl : fraction ++ after = _)
      refine Or.inr ⟨_, hdrop, ?_⟩
      rw [hdigits]
      simp only [List.length_append, List.length_cons]
      omega
  · obtain ⟨digits, ⟨_, hall⟩, rfl⟩ := hadmits
    have hsplit : digits ++ '.' :: after = c :: cs := by simpa using heq
    obtain ⟨hdigits, hdrop⟩ := takeWhile_dropWhile_of_append hall hpoint hsplit
    refine Or.inr ⟨_, hdrop, ?_⟩
    rw [hdigits]
    simp only [List.length_append, List.length_singleton]
    omega

theorem isMaximal_nextNumber {whole rest cs : List Char} {c : Char}
    (hwhole : whole = (c :: cs).takeWhile Char.isDigit)
    (hrest : rest = (c :: cs).dropWhile Char.isDigit) (hc : c.isDigit) :
    (nextNumber whole rest).1.IsMaximal (nextNumber whole rest).2 := by
  have hdigits : SegmentSort.IsDigits whole := by
    subst hwhole
    exact ⟨by simp [hc], fun d hd => List.mem_takeWhile_imp hd⟩
  have hsplit : whole ++ rest = c :: cs := by
    rw [hwhole, hrest, List.takeWhile_append_dropWhile]
  have hbound {sort : SegmentSort} {w after : List Char} (hadmits : sort.Admits w after)
      (heq : w ++ after = c :: cs) : w.length ≤ whole.length ∨ ∃ more, rest = '.' :: more ∧
        w.length ≤ whole.length + 1 + (more.takeWhile Char.isDigit).length := by
    rw [hwhole, hrest]
    exact length_le_of_isDigit hc hadmits heq
  unfold nextNumber
  split
  next after =>
    by_cases hfraction : (after.takeWhile Char.isDigit).isEmpty
    · -- the point has no digits after it, so a longer stretch has none either
      simp only [hfraction, ↓reduceIte]
      refine ⟨⟨whole, hdigits, rfl⟩, ?_⟩
      intro sort w after' heq hadmits
      replace heq : w ++ after' = c :: cs := by
        rw [heq, ← hsplit]
        simp [text]
      simp only [text, List.length_append, List.length_singleton]
      obtain hle | ⟨more, hmore, hle⟩ := hbound hadmits heq
      · omega
      · obtain rfl := (List.cons.inj hmore).2
        rw [List.isEmpty_iff.mp hfraction] at hle
        exact hle
    · simp only [hfraction, Bool.false_eq_true, ↓reduceIte]
      refine ⟨⟨whole, hdigits, Or.inr ⟨after.takeWhile Char.isDigit, ?_, ?_⟩⟩, ?_⟩
      · exact ⟨by simpa using hfraction, fun d hd => List.mem_takeWhile_imp hd⟩
      · simp [text, hfraction]
      intro sort w after' heq hadmits
      replace heq : w ++ after' = c :: cs := by
        rw [heq, ← hsplit]
        simp [text, hfraction, List.takeWhile_append_dropWhile]
      have hlength : (number whole (after.takeWhile Char.isDigit)).text.length =
          whole.length + 1 + (after.takeWhile Char.isDigit).length := by
        simp [text, hfraction]
        omega
      rw [hlength]
      obtain hle | ⟨more, hmore, hle⟩ := hbound hadmits heq
      · omega
      · obtain rfl := (List.cons.inj hmore).2
        exact hle
  next hnopoint =>
    refine ⟨⟨whole, hdigits, Or.inl (by simp [text])⟩, ?_⟩
    intro sort w after' heq hadmits
    replace heq : w ++ after' = c :: cs := by
      rw [heq, ← hsplit]
      simp [text]
    obtain hle | ⟨more, hmore, _⟩ := hbound hadmits heq
    · simpa [text] using hle
    · exact (hnopoint more hmore).elim

theorem isMaximal_word {c : Char} (h : isWordStart c) (cs : List Char) :
    (word (c :: cs.takeWhile isWordRest)).IsMaximal (cs.dropWhile isWordRest) := by
  have hstart : c.isAlpha ∨ c = '_' := by simpa [isWordStart] using h
  refine ⟨⟨c, _, rfl, hstart, ?_⟩, ?_⟩
  · intro d hd
    simpa [isWordRest] using List.mem_takeWhile_imp hd
  · intro sort w rest heq hadmits
    replace heq : w ++ rest = c :: cs := by
      rw [heq]
      simp [text, List.takeWhile_append_dropWhile]
    obtain rfl : sort = .word := by
      simpa [SegmentSort.startedBy_of_isWordStart h] using hadmits.mem_startedBy heq
    obtain ⟨d, ds, rfl, _, hall⟩ := hadmits
    have hds : ds ++ rest = cs := by simpa using (List.cons.inj heq).2
    have hle := length_le_length_takeWhile (p := isWordRest)
      (fun e he => by simpa [isWordRest] using hall e he) hds
    simpa [text] using hle

theorem spelling_eq_or (m : Mark) :
    (∃ c, m.spelling = [c] ∧ Mark.ofChar? c = some m) ∨
      ∃ c, m.spelling = [c, '='] ∧ Mark.withEqual? c = some m := by
  cases m <;> first | exact Or.inl ⟨_, rfl, rfl⟩ | exact Or.inr ⟨_, rfl, rfl⟩

theorem isMaximal_comment (cs : List Char) :
    (comment (cs.takeWhile (· != '\n'))).IsMaximal (cs.dropWhile (· != '\n')) := by
  refine ⟨⟨_, ?_, rfl⟩, ?_⟩
  · intro hmem
    simpa using List.mem_takeWhile_imp hmem
  · intro sort w rest heq hadmits
    replace heq : w ++ rest = '/' :: '/' :: cs := by
      rw [heq]
      simp [text, List.takeWhile_append_dropWhile]
    have hsort : sort = .operator ∨ sort = .comment := by
      simpa [SegmentSort.startedBy, isBlank, isWordStart] using hadmits.mem_startedBy heq
    obtain rfl | rfl := hsort
    · obtain ⟨m, rfl⟩ := hadmits
      obtain ⟨c, hm, _⟩ | ⟨c, hm, _⟩ := spelling_eq_or m <;> simp [text, hm]
    · obtain ⟨body, hnot, rfl⟩ := hadmits
      have hle := length_le_length_takeWhile (p := (· != '\n'))
        (fun d hd => by simpa using fun hnewline : d = '\n' => hnot (hnewline ▸ hd))
        (rfl : body ++ rest = _)
      have hbody : body ++ rest = cs := by simpa using heq
      simpa [text, hbody] using hle

theorem isMaximal_nextMark {c : Char} {cs : List Char}
    (hsorts : ∀ sort ∈ SegmentSort.startedBy c, sort = .operator ∨ sort = .comment)
    (hcomment : ∀ rest, c = '/' → cs ≠ '/' :: rest) :
    (nextMark c cs).1.IsMaximal (nextMark c cs).2 := by
  -- only an operator can begin here, so a stretch is as long as the spelling of a mark
  have hoperator {sort : SegmentSort} {w rest : List Char} (hadmits : sort.Admits w rest)
      (heq : w ++ rest = c :: cs) :
      (w = [c] ∧ (Mark.ofChar? c).isSome) ∨
        ∃ m, w = [c, '='] ∧ Mark.withEqual? c = some m ∧ cs = '=' :: rest := by
    obtain rfl | rfl := hsorts sort (hadmits.mem_startedBy heq)
    · obtain ⟨m, rfl⟩ := hadmits
      obtain ⟨d, hm, hd⟩ | ⟨d, hm, hd⟩ := spelling_eq_or m
      · rw [hm] at heq
        obtain ⟨rfl, _⟩ : d = c ∧ rest = cs := by simpa using heq
        exact Or.inl ⟨hm, by simp [hd]⟩
      · rw [hm] at heq
        obtain ⟨rfl, hcs⟩ : d = c ∧ '=' :: rest = cs := by simpa using heq
        exact Or.inr ⟨m, hm, hd, hcs.symm⟩
    · obtain ⟨body, _, rfl⟩ := hadmits
      obtain ⟨hslash, hcs⟩ : '/' = c ∧ '/' :: (body ++ rest) = cs := by simpa using heq
      exact (hcomment _ hslash.symm hcs.symm).elim
  unfold nextMark
  split
  next m rest hm =>
    refine ⟨⟨m, rfl⟩, ?_⟩
    intro sort w rest' heq hadmits
    simp only [text, Mark.spelling_of_withEqual? hm, List.cons_append, List.nil_append] at heq
    obtain ⟨rfl, _⟩ | ⟨m', rfl, _⟩ := hoperator hadmits heq <;>
      simp [text, Mark.spelling_of_withEqual? hm]
  next hequal =>
    split
    next m hm =>
      refine ⟨⟨m, rfl⟩, ?_⟩
      intro sort w rest' heq hadmits
      simp only [text, Mark.spelling_of_ofChar? hm, List.singleton_append] at heq
      obtain ⟨rfl, _⟩ | ⟨m', _, hm', hcs⟩ := hoperator hadmits heq
      · simp [text, Mark.spelling_of_ofChar? hm]
      · exact (hequal m' rest' hm' hcs).elim
    next hnone =>
      refine ⟨rfl, ?_⟩
      intro sort w rest' heq hadmits
      obtain ⟨_, hsome⟩ | ⟨m', _, hm', hcs⟩ := hoperator hadmits heq
      · simp [hnone] at hsome
      · exact hequal m' rest' hm' hcs

/-- The first segment of a text is maximal. -/
theorem isMaximal_next (c : Char) (cs : List Char) :
    (next c cs).1.IsMaximal (next c cs).2 := by
  unfold next
  split
  next hblank => exact isMaximal_blank hblank cs
  next hblank =>
  split
  next => exact isMaximal_newline cs
  next hnewline =>
  split
  next => exact isMaximal_nextString cs
  next hquote =>
  split
  next hdigit =>
    exact isMaximal_nextNumber (List.takeWhile_cons_of_pos hdigit).symm
      (List.dropWhile_cons_of_pos hdigit).symm hdigit
  next hdigit =>
  split
  next hword => exact isMaximal_word hword cs
  next hword =>
  split
  next => exact isMaximal_comment _
  next hslashes =>
    apply isMaximal_nextMark
    · intro sort hsort
      unfold SegmentSort.startedBy at hsort
      simp only [hblank, hnewline, hquote, hdigit, hword, Bool.false_eq_true, ↓reduceIte] at hsort
      split at hsort <;> simp_all
    · intro rest hc hcs
      exact hslashes rest hc hcs

/-- What a segment gives: a token that is written like it, whose kind says what it is and what it
denotes, or a fault that names what is wrong. -/
def Gives : Segment → Item → Prop
  | mark m, .ok t => t.kind = .mark m ∧ t.lexeme = String.ofList m.spelling
  | string body closed, .ok t =>
    t.kind = .string (String.ofList body) ∧ t.lexeme = String.ofList (string body closed).text
  | number whole fraction, .ok t =>
    t.kind = .number (Decimal.ofParts whole fraction) ∧
      t.lexeme = String.ofList (number whole fraction).text
  | word w, .ok t =>
    t.lexeme = String.ofList w ∧
      ((∃ k : Keyword, k.spelling = t.lexeme ∧ t.kind = .keyword k) ∨
        ((∀ k : Keyword, k.spelling ≠ t.lexeme) ∧ t.kind = .identifier))
  | brokenNumber whole, .error e => e.fault = .missingFraction (whole ++ ['.'])
  | stray c, .error e => e.fault = .unexpectedCharacter c
  | _, _ => False

/-- Whether a segment gives an item at all. -/
def IsSignificant : Segment → Bool
  | blank _ | newline | comment _ => false
  | _ => true

theorem kindOfWord_cases (w : String) :
    (∃ k : Keyword, k.spelling = w ∧ kindOfWord w = .keyword k) ∨
      ((∀ k : Keyword, k.spelling ≠ w) ∧ kindOfWord w = .identifier) := by
  unfold kindOfWord Keyword.ofWord?
  cases hfind : Keyword.all.find? fun k => k.spelling == w with
  | some k => exact Or.inl ⟨k, by simpa using List.find?_some hfind, rfl⟩
  | none =>
      refine Or.inr ⟨fun k hk => ?_, rfl⟩
      have hnot := List.find?_eq_none.mp hfind k (Keyword.mem_all k)
      simp [hk] at hnot

/-- A segment gives one item if it is significant, and else none. -/
theorem item?_cases (s : Segment) (line : Nat) :
    (s.IsSignificant ∧ ∃ item, s.item? line = some item ∧ s.Gives item) ∨
      (s.IsSignificant = false ∧ s.item? line = none) := by
  cases s with
  | mark m => exact Or.inl ⟨rfl, _, rfl, rfl, rfl⟩
  | string body closed => exact Or.inl ⟨rfl, _, rfl, rfl, rfl⟩
  | number whole fraction => exact Or.inl ⟨rfl, _, rfl, rfl, rfl⟩
  | brokenNumber whole => exact Or.inl ⟨rfl, _, rfl, rfl⟩
  | word w => exact Or.inl ⟨rfl, _, rfl, rfl, kindOfWord_cases _⟩
  | blank c => exact Or.inr ⟨rfl, rfl⟩
  | newline => exact Or.inr ⟨rfl, rfl⟩
  | comment body => exact Or.inr ⟨rfl, rfl⟩
  | stray c => exact Or.inl ⟨rfl, _, rfl, rfl⟩

theorem Gives.isEof_eq_false {s : Segment} {t : Token} (h : s.Gives (.ok t)) :
    t.isEof = false := by
  have hkind {kind : Kind} (hkind : t.kind = kind) (hsame : kind.same .eof = false) :
      t.isEof = false := by
    rw [Token.isEof, hkind, hsame]
  cases s with
  | mark m => exact hkind h.1 rfl
  | string body closed => exact hkind h.1 rfl
  | number whole fraction => exact hkind h.1 rfl
  | word w =>
      obtain ⟨_, ⟨k, _, hk⟩ | ⟨_, hk⟩⟩ := h
      · exact hkind hk rfl
      · exact hkind hk rfl
  | brokenNumber _ | blank _ | newline | comment _ | stray _ => exact h.elim

/-- What segments give never is the end of the text. -/
theorem isEof_eq_false_of_gives {segs : List Segment} {items : List Item}
    (h : List.Forall₂ Gives segs items) {t : Token} (ht : .ok t ∈ items) : t.isEof = false := by
  induction h with
  | nil => simp at ht
  | cons hfirst _ ih =>
      rcases List.mem_cons.mp ht with rfl | htail
      · exact hfirst.isEof_eq_false
      · exact ih htail

end Segment

/-- The items of segments are what the significant ones give, in order, and the end of the text. -/
theorem exists_itemsFrom_eq (line : Nat) (segs : List Segment) :
    ∃ front last, itemsFrom line segs = front ++ [.ok ⟨.eof, "", last⟩] ∧
      List.Forall₂ Segment.Gives (segs.filter Segment.IsSignificant) front := by
  induction segs generalizing line with
  | nil => exact ⟨[], line, rfl, .nil⟩
  | cons s rest ih =>
      obtain ⟨front, last, hitems, hgives⟩ := ih (line + s.advance)
      obtain ⟨hsignificant, item, hitem, hs⟩ | ⟨hsignificant, hitem⟩ := s.item?_cases line
      · refine ⟨item :: front, last, ?_, ?_⟩
        · simp [itemsFrom, hitem, hitems]
        · rw [List.filter_cons_of_pos hsignificant]
          exact .cons hs hgives
      · refine ⟨front, last, ?_, ?_⟩
        · simp [itemsFrom, hitem, hitems]
        · rwa [List.filter_cons_of_neg (by simp [hsignificant])]

/-- Every segment of a text is maximal where it stands. -/
theorem isMaximal_of_segments_eq {cs : List Char} {before after : List Segment} {s : Segment}
    (h : segments cs = before ++ s :: after) : s.IsMaximal (after.flatMap Segment.text) := by
  induction before generalizing cs with
  | nil =>
      cases cs with
      | nil => simp [segments] at h
      | cons c cs =>
          rw [segments] at h
          obtain ⟨rfl, rfl⟩ :
              (Segment.next c cs).1 = s ∧ segments (Segment.next c cs).2 = after := by
            simpa using h
          rw [flatMap_text_segments]
          exact Segment.isMaximal_next c cs
  | cons first before ih =>
      cases cs with
      | nil => simp [segments] at h
      | cons c cs =>
          rw [segments] at h
          have htail : segments (Segment.next c cs).2 = before ++ s :: after := by
            simpa using (List.cons.inj h).2
          exact ih htail

theorem Segment.IsMaximal.text_ne_nil {s : Segment} {rest : List Char} (h : s.IsMaximal rest) :
    s.text ≠ [] := by
  unfold Segment.IsMaximal at h
  split at h
  next sort _ =>
    obtain ⟨c, cs, hcons, _⟩ := h.1.exists_cons
    simp [hcons]
  next =>
    intro hnil
    simp [hnil] at h

/-- Lexical analysis loses nothing and takes the longest match. The segments of a source text are
not empty, each begins at the start of a character, written one after the other they are the whole
text, and each is maximal where it stands. The items are what the segments give that are no blanks,
newlines or comments, one each and in order, and after them the end of the text, which is the only
one. -/
theorem items_eq_maximal_segments (source : String) :
    String.join ((segments source.toList).map fun s => String.ofList s.text) = source ∧
    (∀ before s after, segments source.toList = before ++ s :: after →
      s.text ≠ [] ∧ s.IsMaximal (after.flatMap Segment.text) ∧
      (String.ofList (before.flatMap Segment.text)).rawEndPos.IsValid source) ∧
    ∃ front last, items source = front ++ [.ok ⟨.eof, "", last⟩] ∧
      List.Forall₂ Segment.Gives ((segments source.toList).filter Segment.IsSignificant) front ∧
      ∀ t, .ok t ∈ front → t.isEof = false := by
  have htext := flatMap_text_segments source.toList
  refine ⟨?_, ?_, ?_⟩
  · apply String.toList_inj.mp
    conv_rhs => rw [← htext]
    simp [List.flatMap_def, Function.comp_def]
  · intro before s after hsegments
    have hmaximal := isMaximal_of_segments_eq hsegments
    refine ⟨hmaximal.text_ne_nil, hmaximal, ?_⟩
    rw [String.Pos.Raw.isValid_iff_exists_append]
    refine ⟨_, String.ofList ((s :: after).flatMap Segment.text), ?_, rfl⟩
    apply String.toList_inj.mp
    rw [← htext, hsegments]
    simp
  · obtain ⟨front, last, hitems, hgives⟩ := exists_itemsFrom_eq 1 (segments source.toList)
    exact ⟨front, last, hitems, hgives, fun t ht => Segment.isEof_eq_false_of_gives hgives ht⟩

end ScopedScript
