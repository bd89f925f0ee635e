import ScopedScript.Token.Segment

/-!
# Characters as bytes

In UTF-8 a character of ASCII is one byte, its code, and the bytes of any other character are beyond
ASCII. So whoever looks for characters of ASCII may look for their bytes.
-/

namespace ScopedScript

section Encoding

variable {c d : Char}

/-- The bytes of a character beyond ASCII are all beyond ASCII. -/
theorem le_of_mem_utf8EncodeChar (hc : 0x80 ≤ c.val.toNat) {b : UInt8}
    (hb : b ∈ String.utf8EncodeChar c) : 0x80 ≤ b.toNat := by
  have hle {n : Nat} (h : 0x80 ≤ n ∧ n < 0x100) : 0x80 ≤ (UInt8.ofNat n).toNat := by
    rw [UInt8.toNat_ofNat']
    omega
  have hvalid : c.val.toNat < 0x110000 := by
    have hchar := c.valid
    simp only [UInt32.isValidChar, Nat.isValidChar] at hchar
    omega
  unfold String.utf8EncodeChar at hb
  dsimp only at hb
  rw [if_neg (by omega)] at hb
  split at hb
  next =>
    simp only [List.mem_cons, List.not_mem_nil, or_false] at hb
    obtain rfl | rfl := hb <;> exact hle (by omega)
  next =>
  split at hb
  next =>
    simp only [List.mem_cons, List.not_mem_nil, or_false] at hb
    obtain rfl | rfl | rfl := hb <;> exact hle (by omega)
  next =>
    simp only [List.mem_cons, List.not_mem_nil, or_false] at hb
    obtain rfl | rfl | rfl | rfl := hb <;> exact hle (by omega)

/-- The one byte of a character of ASCII is its code. -/
theorem utf8EncodeChar_of_lt (hc : c.val.toNat < 0x80) : String.utf8EncodeChar c = [c.toUInt8] :=
  String.utf8EncodeChar_eq_singleton <| Char.utf8Size_eq_one_iff.mpr <|
    UInt32.le_iff_toNat_le.mpr (Nat.le_of_lt_succ hc)

theorem utf8Size_of_lt (hc : c.val.toNat < 0x80) : c.utf8Size = 1 := by
  rw [← String.length_utf8EncodeChar, utf8EncodeChar_of_lt hc]
  rfl

theorem toNat_toUInt8_of_lt (hc : c.val.toNat < 0x80) : c.toUInt8.toNat = c.val.toNat :=
  Nat.mod_eq_of_lt (Nat.lt_trans hc (by decide))

/-- The code of a character of ASCII is a byte of that character only. -/
theorem toUInt8_mem_utf8EncodeChar (hd : d.val.toNat < 0x80) :
    d.toUInt8 ∈ String.utf8EncodeChar c ↔ c = d := by
  by_cases hc : c.val.toNat < 0x80
  · rw [utf8EncodeChar_of_lt hc, List.mem_singleton, ← UInt8.toNat_inj, toNat_toUInt8_of_lt hd,
      toNat_toUInt8_of_lt hc, UInt32.toNat_inj, ← Char.ext_iff, eq_comm]
  · constructor
    · intro h
      have hle := le_of_mem_utf8EncodeChar (Nat.le_of_not_lt hc) h
      rw [toNat_toUInt8_of_lt hd] at hle
      omega
    · rintro rfl
      exact absurd hd hc

/-- The bytes of a text are those of its characters. -/
theorem toList_toUTF8 (text : String) :
    text.toUTF8.data.toList = text.toList.flatMap String.utf8EncodeChar := by
  rw [String.toUTF8_eq_toByteArray, ← String.utf8Encode_toList, List.utf8Encode,
    List.toList_data_toByteArray]

end Encoding

/-- How many bytes characters take. -/
def byteSize : List Char → Nat
  | [] => 0
  | c :: cs => c.utf8Size + byteSize cs

section ByteSize

variable {cs cs' : List Char} {c : Char}

@[simp] theorem byteSize_nil : byteSize [] = 0 := rfl

@[simp] theorem byteSize_cons : byteSize (c :: cs) = c.utf8Size + byteSize cs := rfl

@[simp] theorem byteSize_append : byteSize (cs ++ cs') = byteSize cs + byteSize cs' := by
  induction cs with
  | nil => exact (Nat.zero_add _).symm
  | cons c cs ih => rw [List.cons_append, byteSize_cons, byteSize_cons, ih, Nat.add_assoc]

theorem length_flatMap_utf8EncodeChar (cs : List Char) :
    (cs.flatMap String.utf8EncodeChar).length = byteSize cs := by
  induction cs with
  | nil => rfl
  | cons c cs ih =>
      rw [List.flatMap_cons, List.length_append, String.length_utf8EncodeChar, ih, byteSize_cons]

theorem utf8ByteSize_eq (text : String) : text.utf8ByteSize = byteSize text.toList := by
  rw [← length_flatMap_utf8EncodeChar, ← toList_toUTF8]
  rfl

end ByteSize

/-- A test that only characters of ASCII pass. -/
def IsAscii (p : Char → Bool) : Prop := ∀ ⦃c⦄, p c = true → c.val.toNat < 0x80

namespace IsAscii

variable {p q : Char → Bool} {c d : Char}

theorem eq_false (hp : IsAscii p) (hc : 0x80 ≤ c.val.toNat) : p c = false :=
  Bool.eq_false_iff.mpr fun hpc => absurd (hp hpc) (Nat.not_lt.mpr hc)

theorem or (hp : IsAscii p) (hq : IsAscii q) : IsAscii fun c => p c || q c := by
  intro c hc
  rcases Bool.or_eq_true_iff.mp hc with h | h
  · exact hp h
  · exact hq h

theorem beq (hd : d.val.toNat < 0x80) : IsAscii (· == d) := by
  intro c hc
  rwa [eq_of_beq hc]

theorem isDigit : IsAscii Char.isDigit := by
  intro c hc
  have hle : c.val ≤ '9'.val := of_decide_eq_true (Bool.and_eq_true_iff.mp hc).2
  exact Nat.lt_of_le_of_lt (UInt32.le_iff_toNat_le.mp hle) (by decide)

theorem isAlpha : IsAscii Char.isAlpha := by
  intro c hc
  rcases Bool.or_eq_true_iff.mp hc with hupper | hlower
  · have hle : c.val ≤ 'Z'.val := (of_decide_eq_true hupper).2
    exact Nat.lt_of_le_of_lt (UInt32.le_iff_toNat_le.mp hle) (by decide)
  · have hle : c.val ≤ 'z'.val := of_decide_eq_true (Bool.and_eq_true_iff.mp hlower).2
    exact Nat.lt_of_le_of_lt (UInt32.le_iff_toNat_le.mp hle) (by decide)

theorem isBlank : IsAscii Segment.isBlank :=
  ((beq (by decide)).or (beq (by decide))).or (beq (by decide))

theorem isWordStart : IsAscii Segment.isWordStart := isAlpha.or (beq (by decide))

theorem isWordRest : IsAscii Segment.isWordRest :=
  (isAlpha.or isDigit).or (beq (by decide))

theorem isSome_ofChar? : IsAscii fun c => (Mark.ofChar? c).isSome := by
  intro c hc
  dsimp only at hc
  unfold Mark.ofChar? at hc
  split at hc
  all_goals first | decide | cases hc

theorem isSome_withEqual? : IsAscii fun c => (Mark.withEqual? c).isSome := by
  intro c hc
  dsimp only at hc
  unfold Mark.withEqual? at hc
  split at hc
  all_goals first | decide | cases hc

end IsAscii

namespace Segment

variable {c : Char}

/-- What is beyond ASCII begins nothing. -/
theorem next_of_le (hc : 0x80 ≤ c.val.toNat) (cs : List Char) : next c cs = (.stray c, cs) := by
  have hne {d : Char} (hd : d.val.toNat < 0x80) : c ≠ d := by
    rintro rfl
    omega
  have hwith : Mark.withEqual? c = none := by
    simpa using IsAscii.isSome_withEqual?.eq_false hc
  have hof : Mark.ofChar? c = none := by
    simpa using IsAscii.isSome_ofChar?.eq_false hc
  simp [next, nextMark, IsAscii.isBlank.eq_false hc, IsAscii.isDigit.eq_false hc,
    IsAscii.isWordStart.eq_false hc, hne, hwith, hof]

end Segment

end ScopedScript
