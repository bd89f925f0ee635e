import ScopedScript.Proofs.Concatenation.Scanning

/-!
# Lexemes

How a token is written says what token it is: scanning this text alone, or with a blank after it,
gives the token again. So two tokens that are written alike have the same kind and denote the same
value, and the tokens of a source text, written with a blank between any two of them, are the tokens
of the text that this makes. A string that is not closed takes in whatever comes after it, but there
is at most one, at the end.
-/

namespace ScopedScript

namespace Segment

variable {c : Char} {cs rest : List Char} {s s' : Segment}

/-- A segment is a token, with a text that the lexical grammar has for it. -/
structure IsLexeme (s : Segment) : Prop where
  formed : s.Formed
  token : s.kind?.isSome

/-- A text goes on after a segment with nothing that belongs to the segment: it ends there, or goes
on with a blank, and not inside a string. -/
def EndsBefore (s : Segment) (rest : List Char) : Prop :=
  rest = [] ∨ s.Stops ∧ ∃ after, rest = ' ' :: after

theorem EndsBefore.head_eq (h : s.EndsBefore rest) : ∀ d ∈ rest.head?, d = ' ' := by
  rintro d hd
  obtain rfl | ⟨_, after, rfl⟩ := h
  · cases hd
  · cases hd
    rfl

theorem next_of_isDigit (h : c.isDigit) : next c cs =
    nextNumber ((c :: cs).takeWhile Char.isDigit) ((c :: cs).dropWhile Char.isDigit) := by
  have hne {d : Char} (hd : d.isDigit = false) : c ≠ d := by
    rintro rfl
    simp [h] at hd
  have hblank : isBlank c = false := by
    simp [isBlank, hne (d := ' ') rfl, hne (d := '\r') rfl, hne (d := '\t') rfl]
  rw [List.takeWhile_cons_of_pos h, List.dropWhile_cons_of_pos h]
  simp [next, hblank, h, hne (d := '\n') rfl, hne (d := '"') rfl]

theorem next_of_isWordStart (h : isWordStart c) :
    next c cs = (word (c :: cs.takeWhile isWordRest), cs.dropWhile isWordRest) := by
  have hne {d : Char} (hd : isWordStart d = false) : c ≠ d := by
    rintro rfl
    simp [h] at hd
  have hblank : isBlank c = false := by
    simp [isBlank, hne (d := ' ') rfl, hne (d := '\r') rfl, hne (d := '\t') rfl]
  have hdigit : c.isDigit = false := SegmentSort.isDigit_of_isWordStart h
  simp [next, hblank, hdigit, h, hne (d := '\n') rfl, hne (d := '"') rfl]

theorem next_spelling (m : Mark) (hends : (mark m).EndsBefore rest)
    (heq : m.spelling ++ rest = c :: cs) : next c cs = (mark m, rest) := by
  obtain rfl | ⟨_, after, rfl⟩ := hends
  · cases m <;> cases heq <;> rfl
  · cases m <;> cases heq <;> rfl

theorem next_string {body : List Char} {closed : Bool} (hbody : '"' ∉ body)
    (hends : (string body closed).EndsBefore rest)
    (heq : (string body closed).text ++ rest = c :: cs) :
    next c cs = (string body closed, rest) := by
  have hnotQuote : ∀ d ∈ body, (d != '"') = true := by
    intro d hd
    simpa using fun hquote : d = '"' => hbody (hquote ▸ hd)
  obtain ⟨rfl, rfl⟩ := List.cons.inj heq
  change nextString _ = _
  cases closed with
  | true =>
      have hquote : ∀ d ∈ ('"' :: rest).head?, (d != '"') = false := by simp
      unfold nextString
      simp [takeWhile_dropWhile_append hnotQuote hquote]
  | false =>
      -- a string that is not closed ends where the text does
      obtain rfl : rest = [] := hends.resolve_right fun h => nomatch h.1
      have hend : ∀ d ∈ ([] : List Char).head?, (d != '"') = false := by simp
      have hspan := takeWhile_dropWhile_append hnotQuote hend
      rw [List.append_nil] at hspan
      unfold nextString
      simp [hspan]

theorem next_number {whole fraction : List Char} (hwhole : SegmentSort.IsDigits whole)
    (hfraction : ∀ d ∈ fraction, d.isDigit) (hends : (number whole fraction).EndsBefore rest)
    (heq : (number whole fraction).text ++ rest = c :: cs) :
    next c cs = (number whole fraction, rest) := by
  have hrest : ∀ d ∈ rest.head?, d.isDigit = false := fun d hd => by
    rw [hends.head_eq d hd]
    rfl
  have hc : c.isDigit := by
    obtain ⟨d, ds, rfl⟩ := List.exists_cons_of_ne_nil hwhole.1
    obtain rfl : d = c := by simpa [text] using congrArg List.head? heq
    exact hwhole.2 d List.mem_cons_self
  rw [next_of_isDigit hc, ← heq]
  cases fraction with
  | nil =>
      obtain ⟨htake, hdrop⟩ := takeWhile_dropWhile_append hwhole.2 hrest
      simp only [text, List.isEmpty_nil, if_true, List.append_nil, htake, hdrop]
      -- what comes after is no point
      obtain rfl | ⟨_, after, rfl⟩ := hends
      · rfl
      · rfl
  | cons f fs =>
      have hpoint : ∀ d ∈ ('.' :: f :: (fs ++ rest)).head?, d.isDigit = false := by simp
      obtain ⟨htake, hdrop⟩ := takeWhile_dropWhile_append hwhole.2 hpoint
      obtain ⟨htake', hdrop'⟩ := takeWhile_dropWhile_append hfraction hrest
      simp only [text, List.isEmpty_cons, Bool.false_eq_true, if_false, List.append_assoc,
        List.cons_append, htake, hdrop]
      rw [List.cons_append] at htake' hdrop'
      simp only [nextNumber, htake', hdrop', List.isEmpty_cons, Bool.false_eq_true, if_false]

/-- The text of a token is the first segment of it and whatever comes after it. -/
theorem next_of_isLexeme (hs : s.IsLexeme) (hends : s.EndsBefore rest)
    (heq : s.text ++ rest = c :: cs) : next c cs = (s, rest) := by
  obtain ⟨hformed, htoken⟩ := hs
  cases s with
  | mark m => exact next_spelling m hends heq
  | string body closed => exact next_string hformed hends heq
  | number whole fraction => exact next_number hformed.1 hformed.2 hends heq
  | word w =>
      obtain ⟨d, ds, rfl, hd, hds⟩ := hformed
      obtain ⟨rfl, rfl⟩ := List.cons.inj heq
      have hrest : ∀ e ∈ rest.head?, isWordRest e = false := fun e he => by
        rw [hends.head_eq e he]
        rfl
      obtain ⟨htake, hdrop⟩ := takeWhile_dropWhile_append hds hrest
      rw [next_of_isWordStart hd]
      simp only [List.append_eq, htake, hdrop]
  | brokenNumber _ | blank _ | newline | comment _ | stray _ => cases htoken

theorem IsLexeme.text_ne_nil (hs : s.IsLexeme) : s.text ≠ [] := by
  obtain ⟨hformed, htoken⟩ := hs
  cases s with
  | mark m => cases m <;> exact List.cons_ne_nil _ _
  | string body closed => exact List.cons_ne_nil _ _
  | number whole fraction => exact List.append_ne_nil_of_left_ne_nil hformed.1.1 _
  | word w =>
      obtain ⟨d, ds, rfl, _⟩ := hformed
      exact List.cons_ne_nil _ _
  | brokenNumber _ | blank _ | newline | comment _ | stray _ => cases htoken

theorem IsLexeme.fault?_eq_none (hs : s.IsLexeme) : s.fault? = none := by
  obtain ⟨_, htoken⟩ := hs
  cases s with
  | mark _ | string _ _ | number _ _ | word _ => rfl
  | brokenNumber _ | blank _ | newline | comment _ | stray _ => cases htoken

theorem IsLexeme.segments_text_append (hs : s.IsLexeme) (hends : s.EndsBefore rest) :
    segments (s.text ++ rest) = s :: segments rest := by
  obtain ⟨c, cs, heq⟩ := List.exists_cons_of_ne_nil
    (List.append_ne_nil_of_left_ne_nil hs.text_ne_nil rest)
  rw [heq, segments, next_of_isLexeme hs hends heq]

/-- How a token is written says what token it is. -/
theorem IsLexeme.eq_of_text_eq (hs : s.IsLexeme) (hs' : s'.IsLexeme) (h : s.text = s'.text) :
    s = s' := by
  have hsegments := hs.segments_text_append (.inl rfl)
  rw [h, hs'.segments_text_append (.inl rfl)] at hsegments
  exact (List.cons.inj hsegments).1.symm

end Segment

theorem exists_item?_of_mem {line : Nat} {segs : List Segment} {item : Item}
    (h : item ∈ itemsFrom line segs) : (∃ last, item = .ok ⟨.eof, "", last⟩) ∨
      ∃ s ∈ segs, ∃ start, s.item? start = some item := by
  induction segs generalizing line with
  | nil => exact .inl ⟨line, List.mem_singleton.mp h⟩
  | cons s rest ih =>
      rcases List.mem_append.mp h with hfirst | hlater
      · exact .inr ⟨s, List.mem_cons_self, line, Option.mem_toList.mp hfirst⟩
      · obtain hend | ⟨s', hs', hitem⟩ := ih hlater
        · exact .inl hend
        · exact .inr ⟨s', List.mem_cons_of_mem s hs', hitem⟩

/-- A token of a source text is the end of the text, or what a segment gives. -/
theorem exists_isLexeme_of_mem_items {source : String} {t : Token} (h : .ok t ∈ items source) :
    t.kind = .eof ∧ t.lexeme = "" ∨
      ∃ s : Segment, s.IsLexeme ∧ s.kind? = some t.kind ∧ t.lexeme = String.ofList s.text := by
  obtain ⟨last, hend⟩ | ⟨s, hs, start, hitem⟩ := exists_item?_of_mem h
  · cases hend
    exact .inl ⟨rfl, rfl⟩
  · obtain ⟨hkind, hlexeme, _⟩ := Segment.item?_eq_ok.mp hitem
    exact .inr ⟨s, ⟨formed_of_mem_segments hs, by simp [hkind]⟩, hkind, hlexeme⟩

/-- Tokens of source texts that are written alike are of one kind and denote the same value. -/
theorem kind_eq_of_lexeme_eq {source source' : String} {t t' : Token} (ht : .ok t ∈ items source)
    (ht' : .ok t' ∈ items source') (h : t.lexeme = t'.lexeme) : t.kind = t'.kind := by
  have hne {s : Segment} (hs : s.IsLexeme) : String.ofList s.text ≠ "" := by
    simpa using hs.text_ne_nil
  obtain ⟨heof, hempty⟩ | ⟨s, hs, hkind, hlexeme⟩ := exists_isLexeme_of_mem_items ht
  · obtain ⟨heof', _⟩ | ⟨s', hs', _, hlexeme'⟩ := exists_isLexeme_of_mem_items ht'
    · rw [heof, heof']
    · exact (hne hs' (by rw [← hlexeme', ← h, hempty])).elim
  · obtain ⟨_, hempty'⟩ | ⟨s', hs', hkind', hlexeme'⟩ := exists_isLexeme_of_mem_items ht'
    · exact (hne hs (by rw [← hlexeme, h, hempty'])).elim
    · have htext : s.text = s'.text := by
        rw [← String.ofList_inj, ← hlexeme, h, hlexeme']
      obtain rfl := hs.eq_of_text_eq hs' htext
      exact Option.some.inj (hkind.symm.trans hkind')

theorem Kind.same_self (k : Kind) : k.same k = true := by
  cases k <;> simp [same]

theorem Token.same_self (t : Token) : t.same t = true := by
  simp [same, Kind.same_self]

theorem Token.same_iff {t t' : Token} :
    t.same t' = true ↔ t.kind.same t'.kind = true ∧ t.lexeme = t'.lexeme ∧ t.line = t'.line := by
  simp [same, and_assoc]

/-- Comparing tokens of source texts without the values that they denote is exact: they are the same
only if they denote the same value, too, because a token that is written like another one is of the
same kind and denotes the same. -/
theorem same_iff_eq_of_scanned {source source' : String} {t t' : Token}
    (ht : .ok t ∈ items source) (ht' : .ok t' ∈ items source') :
    (t.same t' = true ↔ t = t') ∧ (t.lexeme = t'.lexeme → t.kind = t'.kind) := by
  refine ⟨⟨fun hsame => ?_, ?_⟩, kind_eq_of_lexeme_eq ht ht'⟩
  · obtain ⟨_, hlexeme, hline⟩ := Token.same_iff.mp hsame
    have hkind := kind_eq_of_lexeme_eq ht ht' hlexeme
    cases t
    cases t'
    simp_all
  · rintro rfl
    exact t.same_self

/-- For example, of a string that is not closed, on the second line of two texts. -/
theorem same_iff_eq_of_scanned_open_string : ∃ t t' : Token,
    .ok t ∈ items "nil\n\"a" ∧ .ok t' ∈ items "@\n\"a" ∧ t.same t' = true ∧ t = t' := by
  have hitems : items "nil\n\"a" = [.ok ⟨.keyword .nilWord, "nil", 1⟩,
      .ok ⟨.string "a", "\"a", 2⟩, .ok ⟨.eof, "", 2⟩] := by cbv
  have hitems' : items "@\n\"a" = [.error ⟨.unexpectedCharacter '@', 1⟩,
      .ok ⟨.string "a", "\"a", 2⟩, .ok ⟨.eof, "", 2⟩] := by cbv
  have ht : .ok ⟨.string "a", "\"a", 2⟩ ∈ items "nil\n\"a" := by simp [hitems]
  have ht' : .ok ⟨.string "a", "\"a", 2⟩ ∈ items "@\n\"a" := by simp [hitems']
  exact ⟨_, _, ht, ht', rfl, (same_iff_eq_of_scanned ht ht').1.mp rfl⟩

/-! ### Scanning lexemes again -/

/-- A token but for its line: its kind, with what it denotes, and how it is written. -/
def Token.content (t : Token) : Kind × String := (t.kind, t.lexeme)

/-- The content of the token that a segment is, if it is one. -/
def Segment.content? (s : Segment) : Option (Kind × String) :=
  s.kind?.map fun kind => (kind, String.ofList s.text)

/-- How the tokens of a source text are written, but for its end. -/
def lexemes (source : String) : List String :=
  ((scan source).tokens.filter fun t => !t.isEof).map Token.lexeme

theorem tokens_ofItems_cons (s : Segment) (line : Nat) (rest : List Item) :
    (Scan.ofItems ((s.item? line).toList ++ rest)).tokens.map Token.content =
      s.content?.toList ++ (Scan.ofItems rest).tokens.map Token.content := by
  unfold Segment.item? Segment.content?
  cases s.kind? with
  | some kind => rfl
  | none => cases s.fault? <;> rfl

/-- The contents of the tokens of segments do not depend on the lines. -/
theorem content_itemsFrom (line : Nat) (segs : List Segment) :
    (Scan.ofItems (itemsFrom line segs)).tokens.map Token.content =
      segs.filterMap Segment.content? ++ [(.eof, "")] := by
  induction segs generalizing line with
  | nil => rfl
  | cons s rest ih =>
      rw [itemsFrom, tokens_ofItems_cons, ih, List.filterMap_cons]
      cases s.content? <;> rfl

/-- The tokens of segments are those that the segments give, and the end of the text. -/
theorem exists_tokens_itemsFrom_eq (line : Nat) (segs : List Segment) : ∃ front last,
    (Scan.ofItems (itemsFrom line segs)).tokens = front ++ [⟨.eof, "", last⟩] ∧
      front.map Token.content = segs.filterMap Segment.content? ∧
      ∀ t ∈ front, t.isEof = false := by
  obtain ⟨front, last, hitems, hgives⟩ := exists_itemsFrom_eq line segs
  have htokens : (Scan.ofItems (itemsFrom line segs)).tokens =
      (Scan.ofItems front).tokens ++ [⟨.eof, "", last⟩] := by
    rw [hitems]
    simp [Scan.ofItems]
  refine ⟨_, last, htokens, ?_, fun t ht => ?_⟩
  · have hcontent := content_itemsFrom line segs
    rw [htokens, List.map_append] at hcontent
    exact List.append_cancel_right hcontent
  · exact Segment.isEof_eq_false_of_gives hgives (Scan.mem_tokens_ofItems.mp ht)

theorem errors_itemsFrom {segs : List Segment} (h : ∀ s ∈ segs, s.fault? = none) (line : Nat) :
    (Scan.ofItems (itemsFrom line segs)).errors = [] := by
  induction segs generalizing line with
  | nil => rfl
  | cons s rest ih =>
      obtain ⟨hs, hrest⟩ := List.forall_mem_cons.mp h
      have hlater := ih hrest (line + s.advance)
      unfold itemsFrom Segment.item?
      rw [hs]
      cases s.kind? with
      | some kind => exact hlater
      | none => exact hlater

/-- A segment that another one follows stops. -/
theorem pairwise_stops (cs : List Char) : (segments cs).Pairwise fun s _ => s.Stops := by
  fun_induction segments cs with
  | case1 => exact .nil
  | case2 c cs ih =>
      refine List.pairwise_cons.mpr ⟨fun s hs => ?_, ih⟩
      by_contra hstops
      obtain ⟨body, hnext⟩ := Segment.next_of_not_stops hstops
      rw [hnext, segments] at hs
      exact List.not_mem_nil hs

/-- Tokens that are written with a blank between any two of them are the segments of the text. -/
theorem segments_intercalate {segs : List Segment} (hlexemes : ∀ s ∈ segs, s.IsLexeme)
    (hstops : segs.Pairwise fun s _ => s.Stops) :
    segments ([' '].intercalate (segs.map Segment.text)) = segs.intersperse (.blank ' ') := by
  induction segs with
  | nil => rw [List.map_nil, List.intercalate_nil, segments]; rfl
  | cons s rest ih =>
      obtain ⟨hs, hrest⟩ := List.forall_mem_cons.mp hlexemes
      obtain ⟨hsstops, hlater⟩ := List.pairwise_cons.mp hstops
      cases rest with
      | nil =>
          have hfirst := hs.segments_text_append (.inl rfl)
          rw [List.append_nil, segments] at hfirst
          simpa [List.intercalate_singleton] using hfirst
      | cons s' rest =>
          have hends : s.EndsBefore (' ' :: [' '].intercalate ((s' :: rest).map Segment.text)) :=
            .inr ⟨hsstops s' List.mem_cons_self, _, rfl⟩
          rw [List.map_cons, List.map_cons, List.intercalate_cons_cons, List.append_assoc,
            List.singleton_append, ← List.map_cons, hs.segments_text_append hends, segments,
            List.intersperse_cons_cons]
          exact congrArg (fun later => s :: .blank ' ' :: later) (ih hrest hlater)

theorem forall_mem_intersperse {P : Segment → Prop} {sep : Segment} (hsep : P sep)
    {segs : List Segment} (h : ∀ s ∈ segs, P s) : ∀ s ∈ segs.intersperse sep, P s := by
  induction segs with
  | nil => exact h
  | cons s rest ih =>
      cases rest with
      | nil => exact h
      | cons s' rest =>
          obtain ⟨hs, hrest⟩ := List.forall_mem_cons.mp h
          rw [List.intersperse_cons_cons]
          exact List.forall_mem_cons.mpr ⟨hs, List.forall_mem_cons.mpr ⟨hsep, ih hrest⟩⟩

theorem filterMap_content?_intersperse (segs : List Segment) :
    (segs.intersperse (.blank ' ')).filterMap Segment.content? =
      segs.filterMap Segment.content? := by
  induction segs with
  | nil => rfl
  | cons s rest ih =>
      cases rest with
      | nil => rfl
      | cons s' rest =>
          have hblank : (Segment.blank ' ').content? = none := rfl
          rw [List.intersperse_cons_cons, List.filterMap_cons, List.filterMap_cons_none hblank, ih,
            ← List.filterMap_cons]

/-- The segments of a text that are tokens. -/
def tokenSegments (cs : List Char) : List Segment :=
  (segments cs).filter fun s => s.kind?.isSome

theorem filterMap_content?_tokenSegments (cs : List Char) :
    (tokenSegments cs).filterMap Segment.content? = (segments cs).filterMap Segment.content? := by
  rw [tokenSegments, List.filterMap_filter]
  congr 1
  funext s
  unfold Segment.content?
  cases s.kind? <;> rfl

theorem isLexeme_of_mem_tokenSegments {cs : List Char} {s : Segment} (h : s ∈ tokenSegments cs) :
    s.IsLexeme := by
  obtain ⟨hs, htoken⟩ := List.mem_filter.mp h
  exact ⟨formed_of_mem_segments hs, htoken⟩

theorem map_snd_filterMap_content? {segs : List Segment} (h : ∀ s ∈ segs, s.kind?.isSome) :
    (segs.filterMap Segment.content?).map Prod.snd = segs.map fun s => String.ofList s.text := by
  induction segs with
  | nil => rfl
  | cons s rest ih =>
      obtain ⟨hs, hrest⟩ := List.forall_mem_cons.mp h
      obtain ⟨kind, hkind⟩ := Option.isSome_iff_exists.mp hs
      have hcontent : s.content? = some (kind, String.ofList s.text) := by
        rw [Segment.content?, hkind]
        rfl
      rw [List.filterMap_cons_some hcontent, List.map_cons, List.map_cons, ih hrest]

/-- The tokens of a source text but for its end are what its token segments give. -/
theorem map_content_tokens (source : String) :
    ((scan source).tokens.filter fun t => !t.isEof).map Token.content =
      (tokenSegments source.toList).filterMap Segment.content? := by
  obtain ⟨front, last, htokens, hcontent, hfront⟩ :=
    exists_tokens_itemsFrom_eq 1 (segments source.toList)
  have hscan : (scan source).tokens = front ++ [⟨.eof, "", last⟩] := htokens
  have hkept : (front.filter fun t => !t.isEof) = front :=
    List.filter_eq_self.mpr fun t ht => by simp [hfront t ht]
  have hend : ([⟨.eof, "", last⟩].filter fun t : Token => !t.isEof) = [] := rfl
  rw [hscan, List.filter_append, hkept, hend, List.append_nil, hcontent,
    filterMap_content?_tokenSegments]

/-- The lexemes of a source text are the texts of its segments that are tokens. -/
theorem lexemes_eq (source : String) :
    lexemes source = (tokenSegments source.toList).map fun s => String.ofList s.text := by
  have hsome : ∀ s ∈ tokenSegments source.toList, s.kind?.isSome := fun s hs =>
    (isLexeme_of_mem_tokenSegments hs).token
  rw [← map_snd_filterMap_content? hsome, ← map_content_tokens, List.map_map]
  rfl

/-- The tokens of a source text written again, with a blank between any two of them. -/
def spaced (source : String) : String := " ".intercalate (lexemes source)

theorem toList_spaced (source : String) : (spaced source).toList =
    [' '].intercalate ((tokenSegments source.toList).map Segment.text) := by
  rw [spaced, lexemes_eq, String.toList_intercalate, List.map_map]
  simp [Function.comp_def]

theorem segments_spaced (source : String) :
    segments (spaced source).toList = (tokenSegments source.toList).intersperse (.blank ' ') := by
  rw [toList_spaced]
  exact segments_intercalate (fun s hs => isLexeme_of_mem_tokenSegments hs)
    ((pairwise_stops source.toList).filter _)

/-- Scanning the lexemes of a source text again, with a blank between any two of them, meets no
fault and gives the tokens that they were taken from: of the same kinds, denoting the same values
and written alike, in the same order, and then the end of the text. -/
theorem scan_spaced (source : String) :
    (scan (spaced source)).errors = [] ∧
      ∃ front last, (scan (spaced source)).tokens = front ++ [⟨.eof, "", last⟩] ∧
        front.map Token.content =
          ((scan source).tokens.filter fun t => !t.isEof).map Token.content := by
  have hscan : scan (spaced source) =
      Scan.ofItems (itemsFrom 1 ((tokenSegments source.toList).intersperse (.blank ' '))) := by
    rw [← segments_spaced]
    rfl
  rw [hscan]
  constructor
  · have hblank : (Segment.blank ' ').fault? = none := rfl
    exact errors_itemsFrom (forall_mem_intersperse hblank fun s hs =>
      (isLexeme_of_mem_tokenSegments hs).fault?_eq_none) 1
  · obtain ⟨front, last, htokens, hcontent, _⟩ :=
      exists_tokens_itemsFrom_eq 1 ((tokenSegments source.toList).intersperse (.blank ' '))
    refine ⟨front, last, htokens, ?_⟩
    rw [hcontent, filterMap_content?_intersperse, map_content_tokens]

example : spaced "a<=-1@// b\n\"c" = "a <= - 1 \"c" := by decide +kernel

end ScopedScript
