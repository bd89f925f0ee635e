import Mathlib.Data.List.TakeWhile
import ScopedScript.Proofs.Token.Encoding
import ScopedScript.Token.Bytes

/-!
# Places in a text

A scanner stands between characters, before those that are the rest of the text. There its tests of
the next byte have the answers that they would have for the next character, what it skips are the
characters that it would skip, and what it cuts out are the characters between two such places.
-/

namespace ScopedScript.Scanner

variable {source : String} {i line : Nat} {cs : List Char} {c d : Char}

section Bytes

theorem byteAt_eq_headD (source : String) (i : Nat) :
    byteAt source i = (bytesFrom source i).headD 0 := by
  rw [byteAt, List.headD_eq_head?_getD, bytesFrom, List.head?_drop]
  split
  next h =>
    have hlt : i < source.toUTF8.data.toList.length := h
    rw [List.getElem?_eq_getElem hlt]
    rfl
  next h =>
    have hle : source.toUTF8.data.toList.length ≤ i := Nat.le_of_not_lt h
    rw [List.getElem?_eq_none hle]
    rfl

theorem bytesFrom_succ (source : String) (i : Nat) :
    bytesFrom source (i + 1) = (bytesFrom source i).tail := by
  rw [bytesFrom, bytesFrom, List.tail_drop]

theorem lt_utf8ByteSize_iff : i < source.utf8ByteSize ↔ bytesFrom source i ≠ [] := by
  rw [bytesFrom, ne_eq, List.drop_eq_nil_iff, Nat.not_le]
  rfl

end Bytes

/-- A place stands before characters if these are the rest of the text there. -/
def StandsBefore (source : String) (i : Nat) (cs : List Char) : Prop :=
  ∃ before, source.toList = before ++ cs ∧ i = byteSize before

namespace StandsBefore

theorem zero : StandsBefore source 0 source.toList := ⟨[], rfl, rfl⟩

/-- Behind some of the characters the place stands before the others. -/
theorem past {front : List Char} (h : StandsBefore source i (front ++ cs)) :
    StandsBefore source (i + byteSize front) cs := by
  obtain ⟨before, hs, rfl⟩ := h
  exact ⟨before ++ front, by rw [hs, List.append_assoc], byteSize_append.symm⟩

theorem past_cons (h : StandsBefore source i (c :: cs)) :
    StandsBefore source (i + c.utf8Size) cs := by
  have hpast : StandsBefore source (i + byteSize [c]) cs := past h
  exact hpast

theorem past_ascii (h : StandsBefore source i (c :: cs)) (hc : c.val.toNat < 0x80) :
    StandsBefore source (i + 1) cs :=
  utf8Size_of_lt hc ▸ h.past_cons

theorem add_byteSize (h : StandsBefore source i cs) : i + byteSize cs = source.utf8ByteSize := by
  obtain ⟨before, hs, rfl⟩ := h
  rw [utf8ByteSize_eq, hs, byteSize_append]

theorem eq_of_nil (h : StandsBefore source i []) : i = source.utf8ByteSize := h.add_byteSize

theorem lt_of_cons (h : StandsBefore source i (c :: cs)) : i < source.utf8ByteSize := by
  have hsize := h.add_byteSize
  have hpos := c.utf8Size_pos
  rw [byteSize_cons] at hsize
  omega

theorem bytesFrom_eq (h : StandsBefore source i cs) :
    bytesFrom source i = cs.flatMap String.utf8EncodeChar := by
  obtain ⟨before, hs, rfl⟩ := h
  rw [bytesFrom, toList_toUTF8, hs, List.flatMap_append,
    List.drop_left' (length_flatMap_utf8EncodeChar before)]

theorem peekAt_nil (h : StandsBefore source i []) : peekAt source i = '\x00' := by
  rw [peekAt, byteAt_eq_headD, h.bytesFrom_eq]
  rfl

theorem peekAt_of_lt (h : StandsBefore source i (c :: cs)) (hc : c.val.toNat < 0x80) :
    peekAt source i = c := by
  rw [peekAt, byteAt_eq_headD, h.bytesFrom_eq, List.flatMap_cons, utf8EncodeChar_of_lt hc]
  exact Char.ext (UInt32.toNat_inj.mp (toNat_toUInt8_of_lt hc))

theorem le_peekAt (h : StandsBefore source i (c :: cs)) (hc : 0x80 ≤ c.val.toNat) :
    0x80 ≤ (peekAt source i).val.toNat := by
  rw [peekAt, byteAt_eq_headD, h.bytesFrom_eq, List.flatMap_cons]
  cases hbytes : String.utf8EncodeChar c with
  | nil => exact absurd hbytes String.utf8EncodeChar_ne_nil
  | cons b bs =>
      have hmem : b ∈ String.utf8EncodeChar c := by
        rw [hbytes]
        exact List.mem_cons_self
      exact le_of_mem_utf8EncodeChar hc hmem

/-- A byte passes a test in ASCII if the character does whose first byte it is. -/
theorem test_peekAt {p : Char → Bool} (hp : IsAscii p) (h : StandsBefore source i (c :: cs)) :
    p (peekAt source i) = p c := by
  by_cases hc : c.val.toNat < 0x80
  · rw [h.peekAt_of_lt hc]
  · rw [hp.eq_false (h.le_peekAt (Nat.le_of_not_lt hc)), hp.eq_false (Nat.le_of_not_lt hc)]

theorem test_head? {p : Char → Bool} (hp : IsAscii p) (hzero : p '\x00' = false)
    (h : StandsBefore source i cs) : p (peekAt source i) = cs.head?.any p := by
  cases cs with
  | nil =>
      rw [h.peekAt_nil, hzero]
      rfl
  | cons c cs => exact h.test_peekAt hp

theorem peekAt_eq_iff (hd : d.val.toNat < 0x80) (hzero : d ≠ '\x00')
    (h : StandsBefore source i cs) : peekAt source i = d ↔ cs.head? = some d := by
  cases cs with
  | nil => simp [h.peekAt_nil, hzero.symm]
  | cons c cs =>
      rw [List.head?_cons, Option.some.injEq]
      have htest : (peekAt source i == d) = (c == d) := h.test_peekAt (.beq hd)
      rwa [Bool.eq_iff_iff, beq_iff_eq, beq_iff_eq] at htest

theorem isValid (h : StandsBefore source i cs) : (⟨i⟩ : String.Pos.Raw).IsValid source := by
  obtain ⟨before, hs, rfl⟩ := h
  refine String.Pos.Raw.isValid_iff_exists_append.mpr
    ⟨String.ofList before, String.ofList cs, ?_, ?_⟩
  · rw [← String.ofList_append, ← hs, String.ofList_toList]
  · have hsize : byteSize before = (String.ofList before).utf8ByteSize := by
      rw [utf8ByteSize_eq, String.toList_ofList]
    exact String.Pos.Raw.ext hsize

end StandsBefore

section Skipping

/-- A stretch of bytes that pass a test in ASCII is a stretch of characters that do. -/
theorem skipWhile_eq {p : Char → Bool} (hp : IsAscii p) (hzero : p '\x00' = false)
    (h : StandsBefore source i cs) :
    skipWhile source p hzero i = i + byteSize (cs.takeWhile p) := by
  induction cs generalizing i with
  | nil =>
      rw [skipWhile, dif_neg (by simp [h.peekAt_nil, hzero])]
      rfl
  | cons c cs ih =>
      rw [skipWhile, List.takeWhile_cons, h.test_peekAt hp]
      by_cases hc : p c = true
      · rw [dif_pos hc, if_pos hc, ih (h.past_ascii (hp hc)), byteSize_cons,
          utf8Size_of_lt (hp hc), Nat.add_assoc]
      · rw [dif_neg hc, if_neg hc]
        rfl

/-- The search for a quote goes past all bytes beyond ASCII. -/
theorem skipString_of_le {bs rest : List UInt8} (h : bytesFrom source i = bs ++ rest)
    (hbs : ∀ b ∈ bs, 0x80 ≤ b.toNat) :
    skipString source i line = skipString source (i + bs.length) line := by
  induction bs generalizing i with
  | nil => rfl
  | cons b bs ih =>
      obtain ⟨hb, hbs⟩ := List.forall_mem_cons.mp hbs
      have hpeek : (peekAt source i).val.toNat = b.toNat := by
        rw [peekAt, byteAt_eq_headD, h]
        rfl
      have hne {d : Char} (hd : d.val.toNat < 0x80) : peekAt source i ≠ d := by
        rintro rfl
        omega
      have htail : bytesFrom source (i + 1) = bs ++ rest := by
        rw [bytesFrom_succ, h]
        rfl
      have hlt : i < source.utf8ByteSize :=
        lt_utf8ByteSize_iff.mpr fun hnil => List.cons_ne_nil _ _ (h.symm.trans hnil)
      rw [skipString, if_pos ⟨hlt, hne (by decide)⟩, if_neg (hne (by decide)), ih htail hbs,
        List.length_cons, Nat.add_right_comm, Nat.add_assoc]

/-- One character further on in a string. -/
theorem skipString_cons (h : StandsBefore source i (c :: cs)) (hc : c ≠ '"') :
    skipString source i line =
      skipString source (i + c.utf8Size) (line + [c].count '\n') := by
  by_cases hlt : c.val.toNat < 0x80
  · rw [skipString, h.peekAt_of_lt hlt, if_pos ⟨h.lt_of_cons, hc⟩, utf8Size_of_lt hlt,
      List.count_singleton]
    by_cases hnewline : c = '\n' <;> simp [hnewline]
  · -- none of the bytes of a longer character is a quote or a newline
    have hle : 0x80 ≤ c.val.toNat := Nat.le_of_not_lt hlt
    have hbytes := h.bytesFrom_eq
    rw [List.flatMap_cons] at hbytes
    have hne : c ≠ '\n' := by
      rintro rfl
      exact hlt (by decide)
    rw [skipString_of_le hbytes fun b hb => le_of_mem_utf8EncodeChar hle hb,
      String.length_utf8EncodeChar, List.count_cons_of_ne hne]
    rfl

/-- The search for a quote counts the newlines that it goes past. -/
theorem skipString_eq (h : StandsBefore source i cs) :
    skipString source i line = (i + byteSize (cs.takeWhile (· != '"')),
      line + (cs.takeWhile (· != '"')).count '\n') := by
  induction cs generalizing i line with
  | nil =>
      rw [skipString, if_neg (by simp [h.eq_of_nil])]
      rfl
  | cons c cs ih =>
      by_cases hquote : c = '"'
      · rw [skipString, if_neg (by simp [h.peekAt_of_lt, hquote]), hquote]
        rfl
      · rw [skipString_cons h hquote, ih h.past_cons,
          List.takeWhile_cons_of_pos (by simpa using hquote), byteSize_cons, Nat.add_assoc,
          Nat.add_assoc, ← List.count_append, List.singleton_append]

theorem idxOf?_flatMap_utf8EncodeChar (cs : List Char) :
    (cs.flatMap String.utf8EncodeChar).idxOf? '\n'.toUInt8 =
      if '\n' ∈ cs then some (byteSize (cs.takeWhile (· != '\n'))) else none := by
  induction cs with
  | nil => rfl
  | cons c cs ih =>
      rw [List.flatMap_cons, List.idxOf?, List.findIdx?_append]
      by_cases hc : c = '\n'
      · subst hc
        rfl
      · have hnone : (String.utf8EncodeChar c).findIdx? (· == '\n'.toUInt8) = none := by
          refine List.findIdx?_eq_none_iff.mpr fun b hb => beq_eq_false_iff_ne.mpr ?_
          rintro rfl
          exact hc ((toUInt8_mem_utf8EncodeChar (by decide)).mp hb)
        rw [hnone, Option.none_or, ← List.idxOf?, ih, String.length_utf8EncodeChar,
          List.takeWhile_cons_of_pos (by simpa using hc)]
        by_cases hmem : '\n' ∈ cs
        · rw [if_pos hmem, if_pos (List.mem_cons_of_mem c hmem), byteSize_cons, Nat.add_comm]
          rfl
        · rw [if_neg hmem, if_neg (by simp [hmem, Ne.symm hc])]
          rfl

/-- The search for a newline ends where the characters of the line do. -/
theorem skipLine_eq (h : StandsBefore source i cs) :
    skipLine source i = i + byteSize (cs.takeWhile (· != '\n')) := by
  rw [skipLine, h.bytesFrom_eq, idxOf?_flatMap_utf8EncodeChar]
  by_cases hmem : '\n' ∈ cs
  · rw [if_pos hmem]
  · rw [if_neg hmem, List.takeWhile_eq_self_iff.mpr, h.add_byteSize]
    intro c hc
    simpa using ne_of_mem_of_not_mem hc hmem

end Skipping

/-- What is cut out between characters are the characters there. -/
theorem StandsBefore.slice? {front : List Char} (h : StandsBefore source i (front ++ cs)) :
    slice? source i (i + byteSize front) = some (String.ofList front) := by
  have hbytes : source.toByteArray.data.toList.drop i =
      (front ++ cs).flatMap String.utf8EncodeChar := h.bytesFrom_eq
  rw [Scanner.slice?, dif_pos ⟨Nat.le_add_right .., h.isValid, h.past.isValid⟩]
  refine congrArg some (String.toByteArray_inj.mp ?_)
  rw [String.toByteArray_extract]
  refine ByteArray.ext (Array.toList_inj.mp ?_)
  calc (source.toByteArray.extract i (i + byteSize front)).data.toList
      = (source.toByteArray.data.toList.drop i).take (byteSize front) := by
        rw [ByteArray.data_extract, Array.toList_extract, List.extract_eq_take_drop,
          Nat.add_sub_cancel_left]
    _ = front.flatMap String.utf8EncodeChar := by
        rw [hbytes, List.flatMap_append, List.take_left' (length_flatMap_utf8EncodeChar front)]
    _ = (String.ofList front).toByteArray.data.toList := by
        rw [← String.toUTF8_eq_toByteArray, toList_toUTF8, String.toList_ofList]

theorem accept?_eq {s : Scanner} (hd : d.val.toNat < 0x80)
    (h : StandsBefore source s.curr cs) :
    accept? source s d =
      if cs.head? = some d then some { s with curr := s.curr + 1 } else none := by
  cases cs with
  | nil => rw [accept?, if_neg (by simp [h.eq_of_nil]), if_neg (by simp)]
  | cons c cs =>
      have htest : (peekAt source s.curr == d) = (c == d) := h.test_peekAt (.beq hd)
      rw [Bool.eq_iff_iff, beq_iff_eq, beq_iff_eq] at htest
      simp [accept?, h.lt_of_cons, htest]

end ScopedScript.Scanner
