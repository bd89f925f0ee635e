/-!
# Bytes as text

Bytes are read as UTF-8. Bytes that are not text are refused with the place where they stop being
text: the first index at which no character begins, and how many bytes there are the beginning of
one, unless the bytes end in the middle of a character.
-/

namespace ScopedScript.Text

/-- Why some bytes are not text. -/
inductive DecodeFault where
  /-- At `index`, `length` bytes are not the beginning of a character. -/
  | invalid (length index : Nat)
  /-- The bytes end in the middle of the character that begins at `index`. -/
  | incomplete (index : Nat)
  deriving DecidableEq, Repr

/-- The wording of a fault. -/
def DecodeFault.message : DecodeFault → String
  | .invalid length index => s!"invalid utf-8 sequence of {length} bytes from index {index}"
  | .incomplete index => s!"incomplete utf-8 byte sequence from index {index}"

/-- A range of bytes, both ends included. -/
abbrev ByteRange := UInt8 × UInt8

/-- The bytes that continue a character. -/
def continuation : ByteRange := (0x80, 0xbf)

/-- What has to follow the first byte of a character; `none` if no character begins with it. The
second byte is bounded more tightly where the character would be too small for its length, a
surrogate, or beyond the last code point. -/
def followers (b : UInt8) : Option (List ByteRange) :=
  if b < 0x80 then some []
  else if b < 0xc2 then none
  else if b < 0xe0 then some [continuation]
  else if b = 0xe0 then some [(0xa0, 0xbf), continuation]
  else if b = 0xed then some [(0x80, 0x9f), continuation]
  else if b < 0xf0 then some [continuation, continuation]
  else if b = 0xf0 then some [(0x90, 0xbf), continuation, continuation]
  else if b < 0xf4 then some [continuation, continuation, continuation]
  else if b = 0xf4 then some [(0x80, 0x8f), continuation, continuation]
  else none

/-- How many bytes lie in the ranges asked of them, one by one. -/
def agreeing : List ByteRange → List UInt8 → Nat
  | (first, last) :: ranges, b :: bs =>
    if first ≤ b ∧ b ≤ last then agreeing ranges bs + 1 else 0
  | _, _ => 0

/-- The first place from `index` on at which bytes stop being text. -/
def firstFault (index : Nat) : List UInt8 → DecodeFault
  | [] => .incomplete index
  | b :: bs =>
    match followers b with
    | none => .invalid 1 index
    | some ranges =>
      let n := agreeing ranges bs
      if n = ranges.length then firstFault (index + n + 1) (bs.drop n)
      else if n = bs.length then .incomplete index
      else .invalid (n + 1) index
  termination_by bs => bs.length
  decreasing_by simp only [List.length_cons, List.length_drop]; omega

/-- The text that bytes stand for. -/
def decode (bytes : ByteArray) : Except DecodeFault String :=
  match String.fromUTF8? bytes with
  | some text => .ok text
  | none => .error (firstFault 0 bytes.toList)

example : firstFault 0 [0x61, 0xf0, 0x9f, 0x98, 0x20] = .invalid 3 1 := by decide +kernel

example : firstFault 0 [0x61, 0xe2, 0x82] = .incomplete 1 := by decide +kernel

end ScopedScript.Text
