import ScopedScript.Proofs.Token.Encoding
import ScopedScript.Proofs.Token.Formed

/-!
# Lines

A token stands on the line on which it ends and a fault on the line on which it begins, and lines
are counted from one on. So the line of a token is one more than the newlines up to its end, and
that of a fault one more than the newlines before it. Newlines stand between tokens and inside
strings, and nowhere else; in UTF-8 each of them is one byte, which is part of no other character.
-/

namespace ScopedScript

/-- The byte that is a newline. -/
def newlineByte : UInt8 := 0x0a

/-- How many newline bytes there are in a text. -/
def newlineBytes (text : String) : Nat := text.toUTF8.data.toList.count newlineByte

theorem count_utf8EncodeChar (c : Char) :
    (String.utf8EncodeChar c).count newlineByte = [c].count '\n' := by
  by_cases hc : c = '\n'
  · subst hc
    rfl
  · have hnot : newlineByte ∉ String.utf8EncodeChar c := fun h =>
      hc ((toUInt8_mem_utf8EncodeChar (d := '\n') (by decide)).mp h)
    rw [List.count_eq_zero.mpr hnot, List.count_eq_zero.mpr (by simpa using Ne.symm hc)]

theorem newlineBytes_eq (text : String) : newlineBytes text = text.toList.count '\n' := by
  have hlist (cs : List Char) :
      (cs.flatMap String.utf8EncodeChar).count newlineByte = cs.count '\n' := by
    induction cs with
    | nil => rfl
    | cons c cs ih =>
        rw [List.flatMap_cons, List.count_append, count_utf8EncodeChar, ih, ← List.count_append,
          List.singleton_append]
  rw [newlineBytes, toList_toUTF8, hlist]

theorem newlineBytes_append (text text' : String) :
    newlineBytes (text ++ text') = newlineBytes text + newlineBytes text' := by
  simp only [newlineBytes_eq, String.toList_append, List.count_append]

namespace Segment

theorem newlineBytes_text (s : Segment) : newlineBytes (String.ofList s.text) = s.newlines := by
  rw [newlineBytes_eq, String.toList_ofList]
  rfl

end Segment

/-- The line of an item. -/
def Item.line : Item → Nat
  | .ok t => t.line
  | .error e => e.line

section Order

variable {line : Nat} {segs : List Segment} {item : Item}

theorem Segment.line_of_item? {s : Segment} (h : s.item? line = some item) :
    line ≤ item.line ∧ item.line ≤ line + s.advance := by
  cases item with
  | ok t =>
      have hline : t.line = line + s.advance := (item?_eq_ok.mp h).2.2
      exact ⟨by simp [Item.line, hline], by simp [Item.line, hline]⟩
  | error e =>
      have hline : e.line = line := (item?_eq_error.mp h).2.2
      exact ⟨by simp [Item.line, hline], by simp [Item.line, hline]⟩

theorem le_line_of_mem_itemsFrom (h : item ∈ itemsFrom line segs) : line ≤ item.line := by
  induction segs generalizing line with
  | nil =>
      obtain rfl : item = .ok ⟨.eof, "", line⟩ := List.mem_singleton.mp h
      exact Nat.le_refl line
  | cons s rest ih =>
      rcases List.mem_append.mp h with hfirst | hlater
      · exact (Segment.line_of_item? (Option.mem_toList.mp hfirst)).1
      · exact Nat.le_trans (Nat.le_add_right line s.advance) (ih hlater)

/-- Lines never decrease from one item to the next. -/
theorem pairwise_line_itemsFrom (line : Nat) (segs : List Segment) :
    (itemsFrom line segs).Pairwise fun item later => item.line ≤ later.line := by
  induction segs generalizing line with
  | nil => exact List.pairwise_singleton _ _
  | cons s rest ih =>
      have hlater : ∀ later ∈ itemsFrom (line + s.advance) rest, line + s.advance ≤ later.line :=
        fun later hmem => le_line_of_mem_itemsFrom hmem
      unfold itemsFrom
      cases hitem : s.item? line with
      | none => exact ih _
      | some item =>
          refine List.pairwise_cons.mpr ⟨fun later hmem => ?_, ih _⟩
          exact Nat.le_trans (Segment.line_of_item? hitem).2 (hlater later hmem)

end Order

/-- A segment and the text before it. -/
structure Segment.Placed where
  before : String
  segment : Segment

namespace Segment.Placed

variable {p : Placed} {before : String} {segs : List Segment}

/-- The text of the segment. -/
def text (p : Placed) : String := String.ofList p.segment.text

/-- Whether the segment gives an item at all. -/
def IsSignificant (p : Placed) : Bool := p.segment.IsSignificant

/-- An item that the segment gives is on the right line: a token on one more than the newlines up to
the end of its lexeme, a fault on one more than the newlines before the text that is at fault. -/
def Locates (p : Placed) : Item → Prop
  | .ok t => t.line = 1 + newlineBytes (p.before ++ t.lexeme)
  | .error e => e.line = 1 + newlineBytes p.before

/-- The places of segments that follow one another, from the end of a text on. -/
def inOrder (before : String) : List Segment → List Placed
  | [] => []
  | s :: rest => ⟨before, s⟩ :: inOrder (before ++ String.ofList s.text) rest

theorem locates_of_item? {item : Item} (hp : p.segment.Formed)
    (h : p.segment.item? (1 + newlineBytes p.before) = some item) : p.Locates item := by
  cases item with
  | ok t =>
      obtain ⟨_, hlexeme, hline⟩ := Segment.item?_eq_ok.mp h
      have hends : newlineBytes (p.before ++ t.lexeme) =
          newlineBytes p.before + p.segment.advance := by
        rw [hlexeme, newlineBytes_append, Segment.newlineBytes_text, hp.newlines_eq]
      exact hline.trans (by rw [hends, Nat.add_assoc])
  | error e => exact (Segment.item?_eq_error.mp h).2.2

theorem map_segment_inOrder : (inOrder before segs).map segment = segs := by
  induction segs generalizing before with
  | nil => rfl
  | cons s rest ih => exact congrArg (List.cons s) ih

theorem join_text_inOrder :
    String.join ((inOrder before segs).map text) = String.ofList (segs.flatMap Segment.text) := by
  induction segs generalizing before with
  | nil => rfl
  | cons s rest ih =>
      rw [inOrder, List.map_cons, String.join_cons, ih, List.flatMap_cons, String.ofList_append]
      rfl

/-- The text before a segment is that of the segments before it. -/
theorem before_of_inOrder_eq {front rest : List Placed}
    (h : inOrder before segs = front ++ p :: rest) :
    p.before = before ++ String.join (front.map text) := by
  induction front generalizing before segs with
  | nil =>
      cases segs with
      | nil => cases h
      | cons s later =>
          obtain ⟨rfl, _⟩ := List.cons.inj h
          rw [List.map_nil, String.join_nil, String.append_empty]
  | cons q front ih =>
      cases segs with
      | nil => cases h
      | cons s later =>
          obtain ⟨rfl, hlater⟩ := List.cons.inj h
          rw [ih hlater, List.map_cons, String.join_cons, ← String.append_assoc]
          rfl

end Segment.Placed

/-- The segments of a source text, each with the text before it. -/
def placedSegments (source : String) : List Segment.Placed :=
  Segment.Placed.inOrder "" (segments source.toList)

/-- What segments give, from the end of a text on, is on the right lines, and the end of the text is
on the last line. -/
theorem exists_itemsFrom_eq_located (before : String) (segs : List Segment)
    (h : ∀ s ∈ segs, s.Formed) :
    ∃ front, itemsFrom (1 + newlineBytes before) segs = front ++ [.ok ⟨.eof, "",
        1 + newlineBytes (before ++ String.ofList (segs.flatMap Segment.text))⟩] ∧
      List.Forall₂ (fun p item => p.segment.Gives item ∧ p.Locates item)
        ((Segment.Placed.inOrder before segs).filter Segment.Placed.IsSignificant) front := by
  induction segs generalizing before with
  | nil => exact ⟨[], by simp [itemsFrom], .nil⟩
  | cons s rest ih =>
      obtain ⟨hs, hrest⟩ := List.forall_mem_cons.mp h
      obtain ⟨front, hitems, hgives⟩ := ih (before ++ String.ofList s.text) hrest
      have hline : 1 + newlineBytes before + s.advance =
          1 + newlineBytes (before ++ String.ofList s.text) := by
        rw [newlineBytes_append, s.newlineBytes_text, hs.newlines_eq, Nat.add_assoc]
      have hend : before ++ String.ofList s.text ++ String.ofList (rest.flatMap Segment.text) =
          before ++ String.ofList ((s :: rest).flatMap Segment.text) := by
        rw [List.flatMap_cons, String.ofList_append, String.append_assoc]
      rw [hend] at hitems
      obtain ⟨hsignificant, item, hitem, hgiven⟩ | ⟨hsignificant, hitem⟩ :=
        s.item?_cases (1 + newlineBytes before)
      · refine ⟨item :: front, by rw [itemsFrom, hitem, hline, hitems]; rfl, ?_⟩
        have hfirst : (⟨before, s⟩ : Segment.Placed).IsSignificant = true := hsignificant
        rw [Segment.Placed.inOrder, List.filter_cons_of_pos hfirst]
        exact .cons ⟨hgiven, Segment.Placed.locates_of_item? hs hitem⟩ hgives
      · refine ⟨front, by rw [itemsFrom, hitem, hline, hitems]; rfl, ?_⟩
        have hfirst : ¬(⟨before, s⟩ : Segment.Placed).IsSignificant = true := by
          simp [Segment.Placed.IsSignificant, hsignificant]
        rw [Segment.Placed.inOrder, List.filter_cons_of_neg hfirst]
        exact hgives

/-- Lines are exact. Each segment of a source text that is no blank, newline or comment gives one
item: a token on the line that is one more than the newline bytes up to the end of its lexeme, or a
fault on the line that is one more than the newline bytes before the text that is at fault. The end
of the text is on the line that is one more than all its newline bytes. So lines never decrease from
one item to the next. Lines end only with newlines between tokens and inside strings. -/
theorem lines_exact (source : String) :
    (placedSegments source).map Segment.Placed.segment = segments source.toList ∧
    (∀ front p rest, placedSegments source = front ++ p :: rest →
      p.before = String.join (front.map Segment.Placed.text) ∧
      source = p.before ++ p.text ++ String.join (rest.map Segment.Placed.text)) ∧
    (∃ front, items source = front ++ [.ok ⟨.eof, "", 1 + newlineBytes source⟩] ∧
      List.Forall₂ (fun p item => p.segment.Gives item ∧ p.Locates item)
        ((placedSegments source).filter Segment.Placed.IsSignificant) front) ∧
    ((items source).Pairwise fun item later => item.line ≤ later.line) ∧
    ∀ s ∈ segments source.toList, s.newlines = s.advance := by
  have hjoin : String.join ((placedSegments source).map Segment.Placed.text) = source := by
    rw [placedSegments, Segment.Placed.join_text_inOrder, flatMap_text_segments,
      String.ofList_toList]
  refine ⟨Segment.Placed.map_segment_inOrder, fun front p rest h => ?_, ?_,
    pairwise_line_itemsFrom 1 _, fun s hs => (formed_of_mem_segments hs).newlines_eq⟩
  · have hbefore : p.before = String.join (front.map Segment.Placed.text) := by
      rw [Segment.Placed.before_of_inOrder_eq h, String.empty_append]
    refine ⟨hbefore, ?_⟩
    rw [hbefore]
    conv_lhs => rw [← hjoin, h]
    rw [List.map_append, List.map_cons, String.join_append, String.join_cons, String.append_assoc]
  · obtain ⟨front, hitems, hgives⟩ := exists_itemsFrom_eq_located "" (segments source.toList)
      fun s hs => formed_of_mem_segments hs
    rw [flatMap_text_segments, String.empty_append, String.ofList_toList] at hitems
    exact ⟨front, hitems, hgives⟩

end ScopedScript
