import ScopedScript.Token.Lexer

/-!
# Scanning byte by byte

A scanner goes through the bytes of a source text and never looks at more than two of them beyond
those that it has taken. It knows the characters that mean something by their bytes, as all of them
are ASCII; what it takes is cut out of the text between two bytes, which have to be where characters
begin.
-/

namespace ScopedScript

/-- A place in the bytes of a source text: where the lexeme begins that is being scanned, the byte
that comes next, and the line that it is on. -/
structure Scanner where
  start : Nat
  curr : Nat
  line : Nat
  deriving DecidableEq, Repr

namespace Scanner

section Bytes

variable (source : String)

/-- The byte at a place; there is a zero behind the end of the text. -/
def byteAt (i : Nat) : UInt8 :=
  if h : (⟨i⟩ : String.Pos.Raw) < source.rawEndPos then source.getUTF8Byte ⟨i⟩ h else 0

/-- The byte at a place, as the character that has it for its code. -/
def peekAt (i : Nat) : Char := Char.ofUInt8 (byteAt source i)

theorem byteAt_of_le {i : Nat} (h : source.utf8ByteSize ≤ i) : byteAt source i = 0 :=
  dif_neg (Nat.not_lt_of_le h)

theorem lt_of_peekAt {p : Char → Bool} (hzero : p '\x00' = false) {i : Nat}
    (h : p (peekAt source i) = true) : i < source.utf8ByteSize := by
  refine Nat.not_le.mp fun hle => ?_
  rw [peekAt, byteAt_of_le source hle] at h
  exact Bool.false_ne_true (hzero.symm.trans h)

/-- The first place from a given one on at which there is no byte of a sort. A zero is of no sort,
so the place is not behind the end of the text unless the given one is. -/
def skipWhile (p : Char → Bool) (hzero : p '\x00' = false) (i : Nat) : Nat :=
  if h : p (peekAt source i) = true then skipWhile p hzero (i + 1) else i
  termination_by source.utf8ByteSize - i
  decreasing_by
    have := lt_of_peekAt source hzero h
    omega

/-- The place of the first quote from a given one on, or the end of the text, and the line that it
is on. -/
def skipString (i line : Nat) : Nat × Nat :=
  if i < source.utf8ByteSize ∧ peekAt source i ≠ '"' then
    skipString (i + 1) (if peekAt source i = '\n' then line + 1 else line)
  else (i, line)
  termination_by source.utf8ByteSize - i

/-- The bytes from a place on. -/
def bytesFrom (i : Nat) : List UInt8 := source.toUTF8.data.toList.drop i

/-- The place of the first newline from a given one on, or the end of the text. -/
def skipLine (i : Nat) : Nat :=
  match (bytesFrom source i).idxOf? '\n'.toUInt8 with
  | some k => i + k
  | none => source.utf8ByteSize

/-- The text between two places, if characters begin there. -/
def slice? (i j : Nat) : Option String :=
  if h : i ≤ j ∧ (⟨i⟩ : String.Pos.Raw).IsValid source ∧ (⟨j⟩ : String.Pos.Raw).IsValid source then
    some (source.extract (source.pos ⟨i⟩ h.2.1) (source.pos ⟨j⟩ h.2.2))
  else none

end Bytes

/-- What has been scanned: a token of some kind, nothing that is kept, or a fault; and the place
behind it. There is no answer if a text was to be cut out where no character begins, or was to be a
number and is not. -/
abbrev Scanned := Option (Except LexError (Option Kind) × Scanner)

variable (source : String) (s : Scanner)

/-- The text of the lexeme up to here. -/
def lexeme? : Option String := slice? source s.start s.curr

/-- The place behind the next byte, if it is a certain one. -/
def accept? (c : Char) : Option Scanner :=
  if s.curr < source.utf8ByteSize ∧ peekAt source s.curr = c then
    some { s with curr := s.curr + 1 }
  else none

/-- The string whose opening quote has been taken. -/
def string : Scanned :=
  let (stop, line) := skipString source s.curr s.line
  if source.utf8ByteSize ≤ stop then do
    let body ← slice? source (s.start + 1) stop
    return (.ok (some (.string body)), { s with curr := stop, line := line })
  else do
    let body ← slice? source (s.start + 1) stop
    return (.ok (some (.string body)), { s with curr := stop + 1, line := line })

/-- The number that ends here. -/
def numeral : Scanned := do
  let text ← lexeme? source s
  let value ← Decimal.read? text
  return (.ok (some (.number value)), s)

/-- The number whose first digit has been taken. -/
def number : Scanned :=
  let s := { s with curr := skipWhile source Char.isDigit rfl s.curr }
  if peekAt source s.curr = '.' then
    if (peekAt source (s.curr + 1)).isDigit then
      numeral source { s with curr := skipWhile source Char.isDigit rfl (s.curr + 1) }
    else do
      let s := { s with curr := s.curr + 1 }
      let text ← lexeme? source s
      return (.error ⟨.missingFraction text.toList, s.line⟩, s)
  else numeral source s

/-- The word whose first letter has been taken. -/
def word : Scanned := do
  let s := { s with curr := skipWhile source Segment.isWordRest rfl s.curr }
  let text ← lexeme? source s
  return (.ok (some (Segment.kindOfWord text)), s)

/-- The mark whose first character has been taken, if there is one that begins like this. -/
def mark? (c : Char) : Option (Mark × Scanner) :=
  match Mark.withEqual? c, accept? source s '=' with
  | some two, some s' => some (two, s')
  | _, _ => (Mark.ofChar? c).map fun one => (one, s)

/-- The character that begins where the lexeme does, which begins none. -/
def stray : Scanned := do
  let rest ← slice? source s.start source.utf8ByteSize
  let c := rest.toList.headD '\uFFFD'
  return (.error ⟨.unexpectedCharacter c, s.line⟩, { s with curr := s.start + c.utf8Size })

/-- What begins with the slash that has been taken: a comment, up to the end of the line, if there
is another slash. -/
def slash : Scanned :=
  match accept? source s '/' with
  | some s => some (.ok none, { s with curr := skipLine source s.curr })
  | none => some (.ok (some (.mark .slash)), s)

/-- The mark whose first character has been taken, or a stray character. -/
def markOrStray (c : Char) : Scanned :=
  match mark? source s c with
  | some (m, s) => some (.ok (some (.mark m)), s)
  | none => stray source s

/-- What comes next, up to the place behind it. -/
def scanToken : Scanned :=
  let c := peekAt source s.curr
  let s := { s with curr := s.curr + 1 }
  if Segment.isBlank c then some (.ok none, s)
  else if c = '\n' then some (.ok none, { s with line := s.line + 1 })
  else if c = '"' then string source s
  else if c.isDigit then number source s
  else if Segment.isWordStart c then word source s
  else if c = '/' then slash source s
  else markOrStray source s c

/-- The place at which the next lexeme begins. -/
def begin : Scanner := { s with start := s.curr }

section Progress

variable {source s} {p : Char → Bool} {hzero : p '\x00' = false} {i line : Nat} {c : Char}
  {result : Except LexError (Option Kind)} {s' : Scanner}

theorem le_skipWhile : i ≤ skipWhile source p hzero i := by
  fun_induction skipWhile source p hzero i with
  | case1 i h ih => exact Nat.le_trans (Nat.le_succ i) ih
  | case2 i h => exact Nat.le_refl i

theorem le_skipString : i ≤ (skipString source i line).1 := by
  fun_induction skipString source i line with
  | case1 i line h ih => exact Nat.le_trans (Nat.le_succ i) ih
  | case2 i line h => exact Nat.le_refl i

theorem le_skipLine (h : i ≤ source.utf8ByteSize) : i ≤ skipLine source i := by
  unfold skipLine
  split
  next => exact Nat.le_add_right ..
  next => exact h

theorem accept?_eq_some (h : accept? source s c = some s') :
    s.curr < source.utf8ByteSize ∧ s'.curr = s.curr + 1 := by
  unfold accept? at h
  split at h
  next hbyte =>
    cases h
    exact ⟨hbyte.1, rfl⟩
  next => cases h

theorem le_of_string (h : string source s = some (result, s')) : s.curr ≤ s'.curr := by
  have hstop : s.curr ≤ (skipString source s.curr s.line).1 := le_skipString
  simp only [string] at h
  split at h
  all_goals
    simp only [Option.bind_eq_bind, Option.bind_eq_some_iff, Option.pure_def] at h
    obtain ⟨_, _, h⟩ := h
    cases h
    dsimp only
    omega

theorem eq_of_numeral (h : numeral source s = some (result, s')) : s' = s := by
  simp only [numeral, Option.bind_eq_bind, Option.bind_eq_some_iff, Option.pure_def] at h
  obtain ⟨_, _, _, _, h⟩ := h
  cases h
  rfl

theorem le_of_number (h : number source s = some (result, s')) : s.curr ≤ s'.curr := by
  have hwhole : s.curr ≤ skipWhile source Char.isDigit rfl s.curr := le_skipWhile
  simp only [number] at h
  split at h
  next =>
    split at h
    next =>
      rw [eq_of_numeral h]
      exact Nat.le_trans (Nat.le_succ_of_le hwhole) le_skipWhile
    next =>
      simp only [Option.bind_eq_bind, Option.bind_eq_some_iff, Option.pure_def] at h
      obtain ⟨_, _, h⟩ := h
      cases h
      exact Nat.le_succ_of_le hwhole
  next =>
    rw [eq_of_numeral h]
    exact hwhole

theorem le_of_word (h : word source s = some (result, s')) : s.curr ≤ s'.curr := by
  simp only [word, Option.bind_eq_bind, Option.bind_eq_some_iff, Option.pure_def] at h
  obtain ⟨_, _, h⟩ := h
  cases h
  exact le_skipWhile

theorem le_of_slash (h : slash source s = some (result, s')) : s.curr ≤ s'.curr := by
  unfold slash at h
  split at h
  next s₁ haccept =>
    cases h
    obtain ⟨hlt, hcurr⟩ := accept?_eq_some haccept
    have hline : s₁.curr ≤ skipLine source s₁.curr := le_skipLine (by omega)
    dsimp only
    omega
  next =>
    cases h
    exact Nat.le_refl _

theorem le_of_mark? {m : Mark} (h : mark? source s c = some (m, s')) : s.curr ≤ s'.curr := by
  unfold mark? at h
  split at h
  next haccept =>
    cases h
    exact Nat.le_of_lt (Nat.lt_of_lt_of_eq (Nat.lt_succ_self _) (accept?_eq_some haccept).2.symm)
  next =>
    obtain ⟨_, _, h⟩ := Option.map_eq_some_iff.mp h
    cases h
    exact Nat.le_refl _

theorem lt_of_stray (h : stray source s = some (result, s')) : s.start < s'.curr := by
  simp only [stray, Option.bind_eq_bind, Option.bind_eq_some_iff, Option.pure_def] at h
  obtain ⟨_, _, h⟩ := h
  cases h
  exact Nat.lt_add_of_pos_right (Char.utf8Size_pos _)

theorem lt_of_markOrStray (hs : s.start < s.curr)
    (h : markOrStray source s c = some (result, s')) : s.start < s'.curr := by
  unfold markOrStray at h
  split at h
  next hmark =>
    cases h
    exact Nat.lt_of_lt_of_le hs (le_of_mark? hmark)
  next => exact lt_of_stray h

/-- Whatever comes next is not empty. -/
theorem lt_of_scanToken (h : scanToken source s.begin = some (result, s')) :
    s.curr < s'.curr := by
  unfold scanToken begin at h
  dsimp only at h
  split at h
  next =>
    cases h
    exact Nat.lt_succ_self _
  next =>
  split at h
  next =>
    cases h
    exact Nat.lt_succ_self _
  next =>
  split at h
  next => exact le_of_string h
  next =>
  split at h
  next => exact le_of_number h
  next =>
  split at h
  next => exact le_of_word h
  next =>
  split at h
  next => exact le_of_slash h
  next => exact lt_of_markOrStray (Nat.lt_succ_self _) h

end Progress

end Scanner

section Items

variable (source : String)

/-- The items that are still to come. -/
def Scanner.itemsFrom? (s : Scanner) : Option (List Item) :=
  if _hs : s.curr < source.utf8ByteSize then
    match _h : scanToken source s.begin with
    | some (.error e, s') => (itemsFrom? s').map (.error e :: ·)
    | some (.ok none, s') => itemsFrom? s'
    | some (.ok (some kind), s') => do
      let lexeme ← lexeme? source s'
      (itemsFrom? s').map (.ok ⟨kind, lexeme, s'.line⟩ :: ·)
    | none => none
  else some [.ok ⟨.eof, "", s.line⟩]
  termination_by source.utf8ByteSize - s.curr
  decreasing_by
    all_goals exact Nat.sub_lt_sub_left _hs (lt_of_scanToken _h)

/-- The items of a source text, as its bytes give them. -/
def Scanner.items? : Option (List Item) := itemsFrom? source ⟨0, 0, 1⟩

end Items

end ScopedScript
