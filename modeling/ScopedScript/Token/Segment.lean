import ScopedScript.Token.Basic

/-!
# Segments of a source text

A source text falls into consecutive segments: tokens, the blanks, newlines and comments between
them, and what is neither. Each segment is the longest stretch of its sort that begins where the
one before it ended. Writing the segments one after the other gives the text back
(`flatMap_text_segments`).
-/

namespace ScopedScript

/-- A stretch of a source text. -/
inductive Segment where
  | mark (m : Mark)
  /-- A string; one that is not closed runs to the end of the text. -/
  | string (body : List Char) (closed : Bool)
  /-- A number, whose fraction is empty if it has none. -/
  | number (whole fraction : List Char)
  /-- A number with a point but no digit after it. -/
  | brokenNumber (whole : List Char)
  /-- An identifier or a keyword. -/
  | word (text : List Char)
  | blank (c : Char)
  | newline
  /-- A comment, with what follows its two slashes. -/
  | comment (body : List Char)
  /-- A character that begins nothing. -/
  | stray (c : Char)
  deriving DecidableEq, Repr

namespace Segment

/-- A segment as it is written. -/
def text : Segment → List Char
  | mark m => m.spelling
  | string body closed => '"' :: body ++ if closed then ['"'] else []
  | number whole fraction => whole ++ if fraction.isEmpty then [] else '.' :: fraction
  | brokenNumber whole => whole ++ ['.']
  | word text => text
  | blank c => [c]
  | newline => ['\n']
  | comment body => '/' :: '/' :: body
  | stray c => [c]

/-- Whether a character is a blank inside a line. -/
def isBlank (c : Char) : Bool := c == ' ' || c == '\r' || c == '\t'

/-- Whether a word can begin with a character. -/
def isWordStart (c : Char) : Bool := c.isAlpha || c == '_'

/-- Whether a word can go on with a character. -/
def isWordRest (c : Char) : Bool := c.isAlphanum || c == '_'

/-- The string whose opening quote is followed by `cs`, and the text after it. -/
def nextString (cs : List Char) : Segment × List Char :=
  let body := cs.takeWhile (· != '"')
  match cs.dropWhile (· != '"') with
  | [] => (.string body false, [])
  | _ :: rest => (.string body true, rest)

/-- The number whose digits before the point are `whole`, and the text after it. -/
def nextNumber (whole : List Char) : List Char → Segment × List Char
  | '.' :: cs =>
    let fraction := cs.takeWhile Char.isDigit
    if fraction.isEmpty then (.brokenNumber whole, cs)
    else (.number whole fraction, cs.dropWhile Char.isDigit)
  | cs => (.number whole [], cs)

/-- The mark or stray character at the beginning of `c :: cs`, and the text after it. -/
def nextMark (c : Char) (cs : List Char) : Segment × List Char :=
  match Mark.withEqual? c, cs with
  | some m, '=' :: rest => (.mark m, rest)
  | _, _ =>
    match Mark.ofChar? c with
    | some m => (.mark m, cs)
    | none => (.stray c, cs)

/-- The first segment of the text `c :: cs`, and the text after it. -/
def next (c : Char) (cs : List Char) : Segment × List Char :=
  if isBlank c then (.blank c, cs)
  else if c = '\n' then (.newline, cs)
  else if c = '"' then nextString cs
  else if c.isDigit then
    nextNumber (c :: cs.takeWhile Char.isDigit) (cs.dropWhile Char.isDigit)
  else if isWordStart c then
    (.word (c :: cs.takeWhile isWordRest), cs.dropWhile isWordRest)
  else match c, cs with
    | '/', '/' :: rest => (.comment (rest.takeWhile (· != '\n')), rest.dropWhile (· != '\n'))
    | _, _ => nextMark c cs

theorem text_nextString (cs : List Char) :
    (nextString cs).1.text ++ (nextString cs).2 = '"' :: cs := by
  unfold nextString
  have hsplit := List.takeWhile_append_dropWhile (p := (· != '"')) (l := cs)
  cases hdrop : cs.dropWhile (· != '"') with
  | nil => simpa [text, hdrop] using hsplit
  | cons d rest =>
    have hd : d = '"' := by
      have hne : cs.dropWhile (· != '"') ≠ [] := by simp [hdrop]
      have hhead := List.head_dropWhile_not (· != '"') hne
      simpa [hdrop] using hhead
    subst hd
    simpa [text, hdrop] using hsplit

theorem text_nextNumber (whole cs : List Char) :
    (nextNumber whole cs).1.text ++ (nextNumber whole cs).2 = whole ++ cs := by
  unfold nextNumber
  split
  next cs =>
    by_cases h : (cs.takeWhile Char.isDigit).isEmpty
    · simp [text, h]
    · simp [text, h, List.takeWhile_append_dropWhile]
  next => simp [text]

theorem text_nextMark (c : Char) (cs : List Char) :
    (nextMark c cs).1.text ++ (nextMark c cs).2 = c :: cs := by
  unfold nextMark
  split
  next m rest hm => simp [text, Mark.spelling_of_withEqual? hm]
  next =>
    split
    next m hm => simp [text, Mark.spelling_of_ofChar? hm]
    next => simp [text]

/-- The first segment and the text after it are the whole text. -/
theorem text_next (c : Char) (cs : List Char) :
    (next c cs).1.text ++ (next c cs).2 = c :: cs := by
  unfold next
  split
  next => simp [text]
  next =>
  split
  next h => simp [text, h]
  next =>
  split
  next h => rw [text_nextString, h]
  next =>
  split
  next => rw [text_nextNumber]; simp [List.takeWhile_append_dropWhile]
  next =>
  split
  next => simp [text, List.takeWhile_append_dropWhile]
  next =>
  split
  next => simp [text, List.takeWhile_append_dropWhile]
  next => exact text_nextMark c cs

theorem length_nextString (cs : List Char) : (nextString cs).2.length ≤ cs.length := by
  have h := congrArg List.length (text_nextString cs)
  have hpos : 0 < (nextString cs).1.text.length := by
    unfold nextString
    split <;> simp [text]
  simp only [List.length_append, List.length_cons] at h
  omega

/-- The text after the first segment is shorter than the whole. -/
theorem length_next (c : Char) (cs : List Char) : (next c cs).2.length ≤ cs.length := by
  have hdrop (p : Char → Bool) (l : List Char) : (l.dropWhile p).length ≤ l.length :=
    (List.dropWhile_sublist p).length_le
  have hnumber (whole l : List Char) : (nextNumber whole l).2.length ≤ l.length := by
    unfold nextNumber
    split
    next l =>
      have := hdrop Char.isDigit l
      by_cases h : (l.takeWhile Char.isDigit).isEmpty
      · simp [h]
      · simp [h]
        omega
    next => exact Nat.le_refl _
  have hmark (l : List Char) : (nextMark c l).2.length ≤ l.length := by
    unfold nextMark
    split
    next => simp
    next => split <;> simp
  unfold next
  split
  next => exact Nat.le_refl _
  next =>
  split
  next => exact Nat.le_refl _
  next =>
  split
  next => exact length_nextString cs
  next =>
  split
  next => exact Nat.le_trans (hnumber _ _) (hdrop _ _)
  next =>
  split
  next => exact hdrop _ _
  next =>
  split
  next _ rest _ _ _ _ _ =>
    have := hdrop (· != '\n') rest
    simp only [List.length_cons]
    omega
  next => exact hmark cs

end Segment

/-- The segments of a text. -/
def segments : List Char → List Segment
  | [] => []
  | c :: cs => (Segment.next c cs).1 :: segments (Segment.next c cs).2
  termination_by cs => cs.length
  decreasing_by
    have := Segment.length_next c cs
    simp only [List.length_cons]
    omega

/-- The segments of a text, one after the other, are the text. -/
theorem flatMap_text_segments (cs : List Char) : (segments cs).flatMap Segment.text = cs := by
  fun_induction segments cs with
  | case1 => rfl
  | case2 c cs ih => rw [List.flatMap_cons, ih, Segment.text_next]

end ScopedScript
