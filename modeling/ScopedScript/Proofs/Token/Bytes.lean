import ScopedScript.Proofs.Token.Formed
import ScopedScript.Proofs.Token.Places

/-!
# Scanning byte by byte

What a scanner finds where characters begin is the first segment of these characters, and it ends
where the segment does. So the items that are found byte by byte are those of the segments of the
text, and all that is cut out lies between characters.
-/

namespace ScopedScript

section Numerals

open Decimal

variable {c : Char} {cs whole fraction rest : List Char}

theorem toLower_of_isDigit (hc : c.isDigit = true) : c.toLower = c := by
  have hle : c.val.toNat ≤ 57 := by
    simp only [Char.isDigit, Bool.and_eq_true, decide_eq_true_eq, UInt32.le_iff_toNat_le] at hc
    exact hc.2
  rw [Char.toLower, dif_neg]
  intro hupper
  have hge : 65 ≤ c.val.toNat := UInt32.le_iff_toNat_le.mp hupper.1
  omega

theorem toLower_ne_of_isDigit {word : String} (hc : c.isDigit = true)
    (hword : ∀ d ∈ word.toList.head?, d.isDigit = false) :
    (String.ofList (c :: cs)).toLower ≠ word := by
  rintro rfl
  rw [String.toLower, String.toList_map, String.toList_ofList, List.map_cons,
    toLower_of_isDigit hc] at hword
  exact Bool.false_ne_true ((hword c rfl).symm.trans hc)

/-- What begins with a digit has no sign. -/
theorem Decimal.read?_of_isDigit (hc : c.isDigit = true) :
    read? (String.ofList (c :: cs)) = readMagnitude? (c :: cs) := by
  rw [read?, String.toList_ofList]
  split
  next heq =>
    cases heq
    cases hc
  next heq =>
    cases heq
    cases hc
  next => rfl

theorem Decimal.spanDigits_append (hwhole : ∀ c ∈ whole, c.isDigit)
    (hrest : ∀ c ∈ rest.head?, c.isDigit = false) :
    spanDigits (whole ++ rest) = (whole, rest) := by
  rw [spanDigits, List.takeWhile_append_of_pos hwhole, List.dropWhile_append_of_pos hwhole]
  cases rest with
  | nil => simp
  | cons d rest => simp [hrest d rfl]

/-- A number is read as what its digits stand for. -/
theorem Decimal.read?_number (hwhole : SegmentSort.IsDigits whole)
    (hfraction : ∀ c ∈ fraction, c.isDigit) :
    read? (String.ofList (Segment.number whole fraction).text) =
      some (ofParts whole fraction) := by
  obtain ⟨hne, hdigits⟩ := hwhole
  obtain ⟨c, cs, rfl⟩ := List.exists_cons_of_ne_nil hne
  have hc : c.isDigit = true := hdigits c List.mem_cons_self
  have hspan : spanDigits (c :: (cs ++ if fraction.isEmpty then [] else '.' :: fraction)) =
      (c :: cs, if fraction.isEmpty then [] else '.' :: fraction) :=
    spanDigits_append hdigits (by cases fraction <;> simp)
  rw [Segment.text, List.cons_append, read?_of_isDigit hc, readMagnitude?]
  -- the words for what is not finite begin with a letter
  split
  next heq => exact absurd heq (toLower_ne_of_isDigit hc (by simp))
  next heq => exact absurd heq (toLower_ne_of_isDigit hc (by simp))
  next heq => exact absurd heq (toLower_ne_of_isDigit hc (by simp))
  next =>
    rw [hspan]
    cases fraction with
    | nil => simp [readExponent?, ofParts]
    | cons d ds =>
        have hspanFraction : spanDigits (d :: ds ++ []) = (d :: ds, []) :=
          spanDigits_append hfraction (by simp)
        rw [List.append_nil] at hspanFraction
        simp [hspanFraction, readExponent?, ofParts]

end Numerals

namespace Scanner

variable {source : String} {i line : Nat} {c : Char} {cs : List Char}

/-- What the scanning of a segment comes to, from the place and on the line on which it begins. -/
def segmentScanned (i line : Nat) (seg : Segment) : Scanned :=
  some (match seg.kind?, seg.fault? with
    | some kind, _ => .ok (some kind)
    | none, some fault => .error ⟨fault, line⟩
    | none, none => .ok none,
    ⟨i, i + byteSize seg.text, line + seg.advance⟩)

section Steps

open Segment

variable {rest : List Char}

theorem string_eq (h : StandsBefore source i ('"' :: cs)) :
    string source ⟨i, i + 1, line⟩ = segmentScanned i line (nextString cs).1 := by
  have hcs : StandsBefore source (i + 1) cs := h.past_ascii (by decide)
  have hbody : StandsBefore source (i + 1)
      (cs.takeWhile (· != '"') ++ cs.dropWhile (· != '"')) := by
    rwa [List.takeWhile_append_dropWhile]
  rw [string, skipString_eq hcs]
  dsimp only
  rw [hbody.slice?]
  unfold nextString
  cases hdrop : cs.dropWhile (· != '"') with
  | nil =>
      rw [hdrop] at hbody
      rw [if_pos (Nat.le_of_eq hbody.past.eq_of_nil.symm)]
      simp [segmentScanned, kind?, fault?, text, advance, Nat.add_assoc, Char.utf8Size]
  | cons d rest =>
      rw [hdrop] at hbody
      rw [if_neg (Nat.not_le.mpr hbody.past.lt_of_cons)]
      simp [segmentScanned, kind?, fault?, text, advance, Nat.add_assoc, Char.utf8Size]

/-- What begins with a character and goes on while a test is passed, and what follows it. -/
theorem StandsBefore.stretch (p : Char → Bool) (h : StandsBefore source i (c :: cs)) :
    StandsBefore source i (c :: cs.takeWhile p ++ cs.dropWhile p) := by
  rwa [List.cons_append, List.takeWhile_append_dropWhile]

theorem skipWhile_of_cons {p : Char → Bool} (hp : IsAscii p) (hzero : p '\x00' = false)
    (hc : c.val.toNat < 0x80) (h : StandsBefore source i (c :: cs)) :
    skipWhile source p hzero (i + 1) = i + byteSize (c :: cs.takeWhile p) := by
  rw [skipWhile_eq hp hzero (h.past_ascii hc), byteSize_cons, utf8Size_of_lt hc, Nat.add_assoc]

theorem isEmpty_takeWhile (p : Char → Bool) (cs : List Char) :
    (cs.takeWhile p).isEmpty = !cs.head?.any p := by
  cases cs with
  | nil => rfl
  | cons c cs => cases hc : p c <;> simp [hc]

section Numbers

variable {whole fraction : List Char}

theorem numeral_eq (hwhole : SegmentSort.IsDigits whole) (hfraction : ∀ c ∈ fraction, c.isDigit)
    (h : StandsBefore source i ((Segment.number whole fraction).text ++ rest)) :
    numeral source ⟨i, i + byteSize (Segment.number whole fraction).text, line⟩ =
      segmentScanned i line (.number whole fraction) := by
  rw [numeral, lexeme?, h.slice?]
  simp only [Option.bind_eq_bind, Option.bind_some, Decimal.read?_number hwhole hfraction]
  rfl

section Digits

variable {j : Nat} (hstop : skipWhile source Char.isDigit rfl j = i + byteSize whole)
include hstop

/-- A point after the digits, and no digit after the point. -/
theorem number_of_isEmpty (h : StandsBefore source i (whole ++ '.' :: cs))
    (hempty : (cs.takeWhile Char.isDigit).isEmpty = true) :
    number source ⟨i, j, line⟩ = segmentScanned i line (.brokenNumber whole) := by
  have hpoint : StandsBefore source (i + byteSize whole) ('.' :: cs) := h.past
  have hcs : StandsBefore source (i + byteSize whole + 1) cs := hpoint.past_ascii (by decide)
  have hdigit : (peekAt source (i + byteSize whole + 1)).isDigit = false := by
    rw [hcs.test_head? .isDigit rfl]
    simpa [isEmpty_takeWhile] using hempty
  have htext : StandsBefore source i (whole ++ ['.'] ++ cs) := by
    rwa [List.append_assoc]
  have hslice : slice? source i (i + byteSize whole + 1) =
      some (String.ofList (whole ++ ['.'])) := by
    simpa [Char.utf8Size, Nat.add_assoc] using htext.slice?
  rw [number]
  dsimp only
  rw [hstop, if_pos (hpoint.peekAt_of_lt (by decide)), hdigit, if_neg Bool.false_ne_true, lexeme?,
    hslice]
  simp [segmentScanned, kind?, fault?, text, advance, Nat.add_assoc, Char.utf8Size]

/-- A point after the digits, and digits after the point. -/
theorem number_of_not_isEmpty (hwhole : SegmentSort.IsDigits whole)
    (h : StandsBefore source i (whole ++ '.' :: cs))
    (hempty : ¬(cs.takeWhile Char.isDigit).isEmpty = true) :
    number source ⟨i, j, line⟩ =
      segmentScanned i line (.number whole (cs.takeWhile Char.isDigit)) := by
  have hpoint : StandsBefore source (i + byteSize whole) ('.' :: cs) := h.past
  have hcs : StandsBefore source (i + byteSize whole + 1) cs := hpoint.past_ascii (by decide)
  have hdigit : (peekAt source (i + byteSize whole + 1)).isDigit = true := by
    rw [hcs.test_head? .isDigit rfl]
    simpa [isEmpty_takeWhile] using hempty
  have htext : (Segment.number whole (cs.takeWhile Char.isDigit)).text =
      whole ++ '.' :: cs.takeWhile Char.isDigit := by
    rw [text, if_neg hempty]
  have hend : i + byteSize whole + 1 + byteSize (cs.takeWhile Char.isDigit) =
      i + byteSize (Segment.number whole (cs.takeWhile Char.isDigit)).text := by
    rw [htext, byteSize_append, byteSize_cons, Nat.add_assoc, Nat.add_assoc]
    rfl
  have hnumber : StandsBefore source i
      ((Segment.number whole (cs.takeWhile Char.isDigit)).text ++ cs.dropWhile Char.isDigit) := by
    rwa [htext, List.append_assoc, List.cons_append, List.takeWhile_append_dropWhile]
  rw [number]
  dsimp only
  rw [hstop, if_pos (hpoint.peekAt_of_lt (by decide)), if_pos hdigit,
    skipWhile_eq .isDigit rfl hcs, hend]
  exact numeral_eq hwhole (fun _ hd => List.mem_takeWhile_imp hd) hnumber

/-- No point after the digits. -/
theorem number_of_no_point (hwhole : SegmentSort.IsDigits whole)
    (h : StandsBefore source i (whole ++ rest)) (hpoint : ∀ cs, rest = '.' :: cs → False) :
    number source ⟨i, j, line⟩ = segmentScanned i line (.number whole []) := by
  have hrest : StandsBefore source (i + byteSize whole) rest := h.past
  have htext : (Segment.number whole []).text = whole := List.append_nil whole
  have hnumber : StandsBefore source i ((Segment.number whole []).text ++ rest) := by
    rwa [htext]
  have hpeek : ¬peekAt source (i + byteSize whole) = '.' := by
    rw [hrest.peekAt_eq_iff (by decide) (by decide), List.head?_eq_some_iff]
    exact fun ⟨cs, hcs⟩ => hpoint cs hcs
  rw [number]
  dsimp only
  rw [hstop, if_neg hpeek,
    ← numeral_eq hwhole (fun _ hd => (List.not_mem_nil hd).elim) hnumber, htext]

end Digits

theorem number_eq (h : StandsBefore source i (c :: cs)) (hc : c.isDigit = true) :
    number source ⟨i, i + 1, line⟩ = segmentScanned i line
      (nextNumber (c :: cs.takeWhile Char.isDigit) (cs.dropWhile Char.isDigit)).1 := by
  have hwhole : SegmentSort.IsDigits (c :: cs.takeWhile Char.isDigit) :=
    ⟨List.cons_ne_nil _ _,
      List.forall_mem_cons.mpr ⟨hc, fun _ hd => List.mem_takeWhile_imp hd⟩⟩
  have hstop := skipWhile_of_cons .isDigit rfl (IsAscii.isDigit hc) h
  have hrest := h.stretch Char.isDigit
  generalize cs.dropWhile Char.isDigit = rest at hrest ⊢
  fun_cases nextNumber (c :: cs.takeWhile Char.isDigit) rest with
  | case1 _ _ hempty => exact number_of_isEmpty hstop hrest hempty
  | case2 _ _ hempty => exact number_of_not_isEmpty hstop hwhole hrest hempty
  | case3 _ hpoint => exact number_of_no_point hstop hwhole hrest hpoint

end Numbers

theorem word_eq (h : StandsBefore source i (c :: cs)) (hc : isWordStart c = true) :
    word source ⟨i, i + 1, line⟩ =
      segmentScanned i line (.word (c :: cs.takeWhile isWordRest)) := by
  have hstop := skipWhile_of_cons .isWordRest rfl (IsAscii.isWordStart hc) h
  simp only [word, lexeme?]
  rw [hstop, (h.stretch isWordRest).slice?]
  rfl

theorem stray_eq (h : StandsBefore source i (c :: cs)) :
    stray source ⟨i, i + 1, line⟩ = segmentScanned i line (.stray c) := by
  have hslice : slice? source i (i + byteSize (c :: cs)) = some (String.ofList (c :: cs)) :=
    StandsBefore.slice? (by rwa [List.append_nil])
  simp only [stray]
  rw [← h.add_byteSize, hslice]
  simp only [Option.bind_eq_bind, Option.bind_some, String.toList_ofList]
  rfl

section Marks

variable {m : Mark}

theorem mark?_of_withEqual? (hm : Mark.withEqual? c = some m)
    (h : StandsBefore source (i + 1) ('=' :: rest)) :
    mark? source ⟨i, i + 1, line⟩ c = some (m, ⟨i, i + 2, line⟩) := by
  rw [mark?, hm, accept?_eq (by decide) h, List.head?_cons, if_pos rfl]

theorem mark?_of_ofChar? (h : StandsBefore source (i + 1) cs)
    (hno : ∀ m rest, Mark.withEqual? c = some m → cs = '=' :: rest → False) :
    mark? source ⟨i, i + 1, line⟩ c = (Mark.ofChar? c).map (·, ⟨i, i + 1, line⟩) := by
  rw [mark?, accept?_eq (by decide) h]
  split
  next m s' hm haccept =>
    by_cases hhead : cs.head? = some '='
    · obtain ⟨rest, hrest⟩ := List.head?_eq_some_iff.mp hhead
      exact (hno m rest hm hrest).elim
    · rw [if_neg hhead] at haccept
      cases haccept
  next => rfl

theorem markOrStray_eq (h : StandsBefore source i (c :: cs)) (hc : c.val.toNat < 0x80) :
    markOrStray source ⟨i, i + 1, line⟩ c = segmentScanned i line (nextMark c cs).1 := by
  have hcs : StandsBefore source (i + 1) cs := h.past_ascii hc
  have hsize : c.utf8Size = 1 := utf8Size_of_lt hc
  rw [markOrStray]
  fun_cases nextMark c cs with
  | case1 m rest hm =>
      have htwo : byteSize (Segment.mark m).text = 2 := by
        rw [text, Mark.spelling_of_withEqual? hm, byteSize_cons, hsize]
        rfl
      rw [mark?_of_withEqual? hm hcs, segmentScanned, htwo]
      rfl
  | case2 _ m hm hno =>
      have hone : byteSize (Segment.mark m).text = 1 := by
        rw [text, Mark.spelling_of_ofChar? hm, byteSize_cons, hsize]
        rfl
      rw [mark?_of_ofChar? hcs hno, hm, segmentScanned, hone]
      rfl
  | case3 _ hm hno =>
      rw [mark?_of_ofChar? hcs hno, hm]
      exact stray_eq h

end Marks

theorem next_slash (hcs : ¬cs.head? = some '/') : next '/' cs = nextMark '/' cs := by
  unfold next
  rw [if_neg (by decide), if_neg (by decide), if_neg (by decide), if_neg (by decide),
    if_neg (by decide)]
  split
  next => exact (hcs rfl).elim
  next => rfl

theorem slash_eq (h : StandsBefore source i ('/' :: cs)) :
    slash source ⟨i, i + 1, line⟩ = segmentScanned i line (next '/' cs).1 := by
  have hcs : StandsBefore source (i + 1) cs := h.past_ascii (by decide)
  rw [slash, accept?_eq (by decide) hcs]
  by_cases hhead : cs.head? = some '/'
  · obtain ⟨rest, rfl⟩ := List.head?_eq_some_iff.mp hhead
    have hrest : StandsBefore source (i + 1 + 1) rest := hcs.past_ascii (by decide)
    have hend : i + 1 + 1 + byteSize (rest.takeWhile (· != '\n')) =
        i + byteSize (Segment.comment (rest.takeWhile (· != '\n'))).text := by
      rw [text, byteSize_cons, byteSize_cons, Nat.add_assoc, Nat.add_assoc]
      rfl
    rw [if_pos hhead]
    dsimp only
    rw [skipLine_eq hrest, hend]
    rfl
  · rw [if_neg hhead, next_slash hhead]
    rfl

/-- A byte beyond ASCII begins nothing. -/
theorem scanToken_of_le (hc : 0x80 ≤ (peekAt source i).val.toNat) :
    scanToken source ⟨i, i, line⟩ = stray source ⟨i, i + 1, line⟩ := by
  have hne {d : Char} (hd : d.val.toNat < 0x80) : peekAt source i ≠ d := by
    rintro rfl
    omega
  have hwith : Mark.withEqual? (peekAt source i) = none := by
    simpa using IsAscii.isSome_withEqual?.eq_false hc
  have hof : Mark.ofChar? (peekAt source i) = none := by
    simpa using IsAscii.isSome_ofChar?.eq_false hc
  simp [scanToken, markOrStray, mark?, IsAscii.isBlank.eq_false hc, IsAscii.isDigit.eq_false hc,
    IsAscii.isWordStart.eq_false hc, hne, hwith, hof]

/-- Where a character of ASCII stands, the byte there is that character, and both readers ask the
same of it. -/
theorem scanToken_of_lt (h : StandsBefore source i (c :: cs)) (hc : c.val.toNat < 0x80) :
    scanToken source ⟨i, i, line⟩ = segmentScanned i line (next c cs).1 := by
  have hone : i + byteSize (Segment.blank c).text = i + 1 := by
    rw [text, byteSize_cons, utf8Size_of_lt hc]
    rfl
  unfold scanToken
  rw [h.peekAt_of_lt hc]
  dsimp only
  by_cases hslash : c = '/'
  · subst hslash
    exact slash_eq h
  unfold next
  by_cases hblank : isBlank c = true
  · rw [if_pos hblank, if_pos hblank, segmentScanned, hone]
    rfl
  rw [if_neg hblank, if_neg hblank]
  by_cases hnewline : c = '\n'
  · rw [if_pos hnewline, if_pos hnewline]
    rfl
  rw [if_neg hnewline, if_neg hnewline]
  by_cases hquote : c = '"'
  · subst hquote
    exact string_eq h
  rw [if_neg hquote, if_neg hquote]
  by_cases hdigit : c.isDigit = true
  · rw [if_pos hdigit, if_pos hdigit]
    exact number_eq h hdigit
  rw [if_neg hdigit, if_neg hdigit]
  by_cases hword : isWordStart c = true
  · rw [if_pos hword, if_pos hword]
    exact word_eq h hword
  rw [if_neg hword, if_neg hword, if_neg hslash, markOrStray_eq h hc]
  split
  next => exact (hslash rfl).elim
  next => rfl

/-- What is scanned where characters begin is the first segment of these characters. -/
theorem scanToken_eq (h : StandsBefore source i (c :: cs)) :
    scanToken source ⟨i, i, line⟩ = segmentScanned i line (next c cs).1 := by
  by_cases hc : c.val.toNat < 0x80
  · exact scanToken_of_lt h hc
  · have hle : 0x80 ≤ c.val.toNat := Nat.le_of_not_lt hc
    rw [scanToken_of_le (h.le_peekAt hle), next_of_le hle, stray_eq h]

end Steps

section Items

variable {s s' : Scanner} (hs : s.curr < source.utf8ByteSize)
include hs

theorem itemsFrom?_of_error {e : LexError} (h : scanToken source s.begin = some (.error e, s')) :
    itemsFrom? source s = (itemsFrom? source s').map (.error e :: ·) := by
  rw [itemsFrom?, dif_pos hs]
  split <;> simp_all

theorem itemsFrom?_of_none (h : scanToken source s.begin = some (.ok none, s')) :
    itemsFrom? source s = itemsFrom? source s' := by
  rw [itemsFrom?, dif_pos hs]
  split <;> simp_all

theorem itemsFrom?_of_some {kind : Kind} {lexeme : String}
    (h : scanToken source s.begin = some (.ok (some kind), s'))
    (hlexeme : lexeme? source s' = some lexeme) :
    itemsFrom? source s =
      (itemsFrom? source s').map (.ok ⟨kind, lexeme, s'.line⟩ :: ·) := by
  rw [itemsFrom?, dif_pos hs]
  split <;> simp_all

end Items

/-- The items that are found from a place on are those of the segments of the text there. -/
theorem itemsFrom?_eq {start : Nat} (h : StandsBefore source i cs) :
    itemsFrom? source ⟨start, i, line⟩ = some (itemsFrom line (segments cs)) := by
  fun_induction segments cs generalizing i line start with
  | case1 =>
      rw [itemsFrom?, dif_neg (by simp [h.eq_of_nil])]
      rfl
  | case2 c cs ih =>
      have hlt : (⟨start, i, line⟩ : Scanner).curr < source.utf8ByteSize := h.lt_of_cons
      have hscan : scanToken source (begin ⟨start, i, line⟩) =
        segmentScanned i line (Segment.next c cs).1 := scanToken_eq h
      rw [← Segment.text_next c cs] at h
      -- from here on it does not matter which segment it is
      generalize (Segment.next c cs).1 = seg at *
      have hrest : itemsFrom? source ⟨i, i + byteSize seg.text, line + seg.advance⟩ = _ :=
        ih h.past
      have hlexeme : lexeme? source ⟨i, i + byteSize seg.text, line + seg.advance⟩ =
        some (String.ofList seg.text) := h.slice?
      rw [itemsFrom, Segment.item?]
      rw [segmentScanned] at hscan
      cases hkind : seg.kind? with
      | some kind =>
          rw [hkind] at hscan
          rw [itemsFrom?_of_some hlt hscan hlexeme, hrest]
          rfl
      | none =>
          cases hfault : seg.fault? with
          | some fault =>
              rw [hkind, hfault] at hscan
              rw [itemsFrom?_of_error hlt hscan, hrest]
              rfl
          | none =>
              rw [hkind, hfault] at hscan
              rw [itemsFrom?_of_none hlt hscan, hrest]
              rfl

/-- Byte by byte the items of a text are found that its segments give: nothing is ever cut out
inside of a character, and what is read as a number is one. -/
theorem items?_eq (source : String) : items? source = some (items source) :=
  itemsFrom?_eq .zero

end Scanner

end ScopedScript
