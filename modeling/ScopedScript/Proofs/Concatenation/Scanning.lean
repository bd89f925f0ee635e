import ScopedScript.Proofs.Relabelling.Reading
import ScopedScript.Proofs.Token.Formed
import ScopedScript.Proofs.Token.Words

/-!
# Scanning two source texts at once

A newline belongs to no token but a string, so what is scanned from two texts with a newline between
them is what is scanned from the first one and then what is scanned from the second one, further
down. For this, the first text may not end inside a string.
-/

namespace ScopedScript

theorem takeWhile_append_cons {α : Type} {p : α → Bool} {d : α} (hd : p d = false)
    (l rest : List α) : (l ++ d :: rest).takeWhile p = l.takeWhile p := by
  induction l with
  | nil => simp [hd]
  | cons a l ih => simp [List.takeWhile_cons, ih]

theorem dropWhile_append_cons {α : Type} {p : α → Bool} {d : α} (hd : p d = false)
    (l rest : List α) : (l ++ d :: rest).dropWhile p = l.dropWhile p ++ d :: rest := by
  induction l with
  | nil => simp [hd]
  | cons a l ih =>
      simp only [List.cons_append, List.dropWhile_cons, ih]
      split <;> rfl

namespace Segment

/-- A segment does not go on with a newline after it, being anything but a string that is not
closed. -/
def Stops : Segment → Prop
  | string _ closed => closed = true
  | _ => True

variable {c : Char} {cs rest : List Char}

theorem nextString_append (h : (nextString cs).1.Stops) :
    nextString (cs ++ '\n' :: rest) = ((nextString cs).1, (nextString cs).2 ++ '\n' :: rest) := by
  unfold nextString at h ⊢
  cases hdrop : cs.dropWhile (· != '"') with
  | nil =>
      rw [hdrop] at h
      cases h
  | cons d after =>
      have hhead := List.head_dropWhile_not (· != '"') (w := hdrop ▸ List.cons_ne_nil d after)
      obtain rfl : d = '"' := by simpa [hdrop] using hhead
      -- the quote that closes the string stands before the newline
      have hsplit : cs.takeWhile (· != '"') ++ '"' :: (after ++ '\n' :: rest) =
          cs ++ '\n' :: rest := by
        rw [← List.cons_append, ← List.append_assoc, ← hdrop, List.takeWhile_append_dropWhile]
      have hbody : ∀ c ∈ cs.takeWhile (· != '"'), (c != '"') = true :=
        fun c hc => List.mem_takeWhile_imp (p := (· != '"')) hc
      obtain ⟨htake, hdrop'⟩ := takeWhile_dropWhile_of_append hbody (by simp) hsplit
      simp only [htake, hdrop']

theorem nextNumber_append (whole : List Char) :
    nextNumber whole (cs ++ '\n' :: rest) =
      ((nextNumber whole cs).1, (nextNumber whole cs).2 ++ '\n' :: rest) := by
  have hnewline : ('\n').isDigit = false := rfl
  cases cs with
  | nil => rfl
  | cons d ds =>
      by_cases hd : d = '.'
      · subst hd
        simp only [List.cons_append, nextNumber, takeWhile_append_cons hnewline,
          dropWhile_append_cons hnewline]
        split <;> rfl
      · simp only [List.cons_append]
        unfold nextNumber
        split
        next heq => exact absurd (List.cons.inj heq).1 hd
        next =>
          split
          next heq => exact absurd (List.cons.inj heq).1 hd
          next => rfl

theorem nextMark_of_ne (h : ∀ rest, cs ≠ '=' :: rest) :
    nextMark c cs = match Mark.ofChar? c with
      | some m => (.mark m, cs)
      | none => (.stray c, cs) := by
  unfold nextMark
  split
  next => exact (h _ rfl).elim
  next => rfl

theorem nextMark_append :
    nextMark c (cs ++ '\n' :: rest) = ((nextMark c cs).1, (nextMark c cs).2 ++ '\n' :: rest) := by
  by_cases hcs : ∃ ds, cs = '=' :: ds
  · obtain ⟨ds, rfl⟩ := hcs
    unfold nextMark
    cases Mark.withEqual? c with
    | some m => rfl
    | none => cases Mark.ofChar? c <;> rfl
  · have hne : ∀ ds, cs ≠ '=' :: ds := fun ds h => hcs ⟨ds, h⟩
    have hne' : ∀ ds, cs ++ '\n' :: rest ≠ '=' :: ds := by
      intro ds h
      cases cs with
      | nil => simp at h
      | cons d cs => exact hne cs (by rw [(List.cons.inj h).1])
    rw [nextMark_of_ne hne, nextMark_of_ne hne']
    cases Mark.ofChar? c <;> rfl

/-- A segment that stops is the same with a newline after the text. -/
theorem next_append (h : (next c cs).1.Stops) :
    next c (cs ++ '\n' :: rest) = ((next c cs).1, (next c cs).2 ++ '\n' :: rest) := by
  have hdigit : ('\n').isDigit = false := rfl
  have hword : isWordRest '\n' = false := rfl
  have hcomment : ('\n' != '\n') = false := rfl
  unfold next at h ⊢
  split
  next => rfl
  next hblank =>
  split
  next => rfl
  next hnewline =>
  split
  next hquote =>
    simp only [hquote, if_true] at h
    exact nextString_append h
  next =>
  split
  next => rw [takeWhile_append_cons hdigit, dropWhile_append_cons hdigit, nextNumber_append]
  next =>
  split
  next => rw [takeWhile_append_cons hword, dropWhile_append_cons hword]
  next =>
  have hslashes (ds : List Char) (hds : cs ++ '\n' :: rest = '/' :: ds) :
      ∃ ds', cs = '/' :: ds' ∧ ds = ds' ++ '\n' :: rest := by
    cases cs with
    | nil => simp at hds
    | cons d ds' =>
        obtain ⟨rfl, rfl⟩ := List.cons.inj hds
        exact ⟨ds', rfl, rfl⟩
  split
  next ds heq _ _ _ =>
    obtain ⟨ds', rfl, rfl⟩ := hslashes ds heq
    simp only [takeWhile_append_cons (p := (· != '\n')) hcomment,
      dropWhile_append_cons (p := (· != '\n')) hcomment]
  next hne =>
    split
    next ds => exact (hne _ rfl rfl).elim
    next => exact nextMark_append

theorem stops_nextNumber (whole : List Char) : (nextNumber whole cs).1.Stops := by
  unfold nextNumber
  split
  next ds =>
    simp only
    split <;> trivial
  next => trivial

theorem stops_nextMark : (nextMark c cs).1.Stops := by
  unfold nextMark
  split
  next => trivial
  next => split <;> trivial

theorem nextString_of_not_stops (h : ¬(nextString cs).1.Stops) :
    ∃ body, nextString cs = (string body false, []) := by
  unfold nextString at h ⊢
  cases hdrop : cs.dropWhile (· != '"') with
  | nil => exact ⟨_, rfl⟩
  | cons d after =>
      rw [hdrop] at h
      exact (h rfl).elim

/-- A segment that does not stop is a string that runs to the end of the text. -/
theorem next_of_not_stops (h : ¬(next c cs).1.Stops) :
    ∃ body, next c cs = (string body false, []) := by
  unfold next at h ⊢
  split
  next hblank =>
    rw [if_pos hblank] at h
    exact (h trivial).elim
  next hblank =>
  rw [if_neg hblank] at h
  split
  next hnewline =>
    rw [if_pos hnewline] at h
    exact (h trivial).elim
  next hnewline =>
  rw [if_neg hnewline] at h
  split
  next hquote =>
    rw [if_pos hquote] at h
    exact nextString_of_not_stops h
  next hquote =>
  rw [if_neg hquote] at h
  split
  next hdigit =>
    rw [if_pos hdigit] at h
    exact (h (stops_nextNumber _)).elim
  next hdigit =>
  rw [if_neg hdigit] at h
  split
  next hword =>
    rw [if_pos hword] at h
    exact (h trivial).elim
  next hword =>
  rw [if_neg hword] at h
  split at h
  next => exact (h trivial).elim
  next => exact (h stops_nextMark).elim

end Segment

/-- The segments of two texts with a newline between them. -/
theorem segments_append {cs : List Char} (h : ∀ s ∈ segments cs, s.Stops) (rest : List Char) :
    segments (cs ++ '\n' :: rest) = segments cs ++ .newline :: segments rest := by
  fun_induction segments cs with
  | case1 =>
      rw [List.nil_append, segments]
      rfl
  | case2 c cs ih =>
      obtain ⟨hfirst, hlater⟩ := List.forall_mem_cons.mp h
      rw [List.cons_append, segments, Segment.next_append hfirst, ih hlater]
      rfl

/-- Only the last segment of a text can be a string that is not closed. -/
theorem segments_stop_or (cs : List Char) : (∀ s ∈ segments cs, s.Stops) ∨
    ∃ before body, segments cs = before ++ [.string body false] := by
  fun_induction segments cs with
  | case1 => exact .inl fun s hs => (List.not_mem_nil hs).elim
  | case2 c cs ih =>
      by_cases hfirst : (Segment.next c cs).1.Stops
      · rcases ih with hlater | ⟨before, body, hlater⟩
        · exact .inl (List.forall_mem_cons.mpr ⟨hfirst, hlater⟩)
        · exact .inr ⟨(Segment.next c cs).1 :: before, body, by rw [hlater]; rfl⟩
      · obtain ⟨body, hnext⟩ := Segment.next_of_not_stops hfirst
        refine .inr ⟨[], body, ?_⟩
        rw [hnext, segments]
        rfl

/-- An item further down. -/
def Item.lower (k : Nat) : Item → Item
  | .ok t => .ok (t.relabel (.reline (· + k)))
  | .error e => .error { e with line := e.line + k }

theorem Segment.item?_add (s : Segment) (line k : Nat) :
    s.item? (line + k) = (s.item? line).map (Item.lower k) := by
  unfold item?
  cases s.kind? with
  | some kind =>
      have hline : line + k + s.advance = line + s.advance + k := by omega
      simp only [hline]
      rfl
  | none => cases s.fault? <;> rfl

theorem itemsFrom_add (line k : Nat) (segs : List Segment) :
    itemsFrom (line + k) segs = (itemsFrom line segs).map (Item.lower k) := by
  induction segs generalizing line with
  | nil => rfl
  | cons s rest ih =>
      have hline : line + k + s.advance = line + s.advance + k := by omega
      simp only [itemsFrom, s.item?_add, hline, ih, List.map_append]
      cases s.item? line <;> rfl

theorem itemsFrom_append (line : Nat) (segs segs' : List Segment) :
    itemsFrom line (segs ++ segs') = (itemsFrom line segs).dropLast ++
      itemsFrom (line + (segs.map Segment.advance).sum) segs' := by
  induction segs generalizing line with
  | nil => rfl
  | cons s rest ih =>
      have hne : itemsFrom (line + s.advance) rest ≠ [] := by
        obtain ⟨front, last, hitems, _⟩ := exists_itemsFrom_eq (line + s.advance) rest
        simp [hitems]
      simp only [List.cons_append, itemsFrom, ih, List.map_cons, List.sum_cons, Nat.add_assoc,
        List.dropLast_append_of_ne_nil hne, List.append_assoc]

/-- How far down the second of two texts stands, with a newline between them. -/
def linesBefore (p : String) : Nat := p.toList.count '\n' + 1

theorem tokens_map_lower (k : Nat) (items : List Item) :
    (Scan.ofItems (items.map (Item.lower k))).tokens =
      (Scan.ofItems items).tokens.map (Token.relabel (.reline (· + k))) := by
  unfold Scan.ofItems
  induction items with
  | nil => rfl
  | cons item items ih =>
      cases item with
      | ok t => exact congrArg (List.cons _) ih
      | error e => exact ih

theorem errors_map_lower (k : Nat) (items : List Item) :
    (Scan.ofItems (items.map (Item.lower k))).errors =
      (Scan.ofItems items).errors.map fun e => { e with line := e.line + k } := by
  unfold Scan.ofItems
  induction items with
  | nil => rfl
  | cons item items ih =>
      cases item with
      | ok t => exact ih
      | error e => exact congrArg (List.cons _) ih

/-- What is scanned from two texts with a newline between them: what is scanned from the first one
but for its end, and what is scanned from the second one, further down. -/
theorem scan_append {p : String} (h : ∀ s ∈ segments p.toList, s.Stops) (q : String) :
    (scan (p ++ "\n" ++ q)).tokens = (scan p).tokens.dropLast ++
      (scan q).tokens.map (Token.relabel (.reline (· + linesBefore p))) ∧
    (scan (p ++ "\n" ++ q)).errors = (scan p).errors ++
      (scan q).errors.map fun e => { e with line := e.line + linesBefore p } := by
  have htext : (p ++ "\n" ++ q).toList = p.toList ++ '\n' :: q.toList := by simp
  have hitems : items (p ++ "\n" ++ q) =
      (items p).dropLast ++ (items q).map (Item.lower (linesBefore p)) := by
    have hline : 1 + p.toList.count '\n' + Segment.newline.advance = 1 + linesBefore p :=
      Nat.add_assoc _ _ _
    unfold items
    rw [htext, segments_append h, itemsFrom_append, sum_advance_segments, itemsFrom, hline,
      itemsFrom_add]
    rfl
  obtain ⟨front, last, hfront, _⟩ := exists_itemsFrom_eq 1 (segments p.toList)
  have hp : items p = front ++ [.ok ⟨.eof, "", last⟩] := hfront
  unfold scan
  rw [hitems, hp, List.dropLast_concat, ← tokens_map_lower, ← errors_map_lower]
  simp [Scan.ofItems]

/-- A text that ends inside a string has the string for its last token. -/
theorem stops_or_string (p : String) : (∀ s ∈ segments p.toList, s.Stops) ∨
    ∃ front t eof text, (scan p).tokens = front ++ [t, eof] ∧ t.kind = .string text := by
  rcases segments_stop_or p.toList with hstops | ⟨before, body, hsegments⟩
  · exact .inl hstops
  · right
    unfold scan items
    rw [hsegments, itemsFrom_append]
    generalize 1 + (before.map Segment.advance).sum = line
    exact ⟨(Scan.ofItems (itemsFrom 1 before).dropLast).tokens, _, _, String.ofList body,
      List.filterMap_append, rfl⟩

end ScopedScript
