import ScopedScript.Decimal.Reading
import ScopedScript.Token.Segment

/-!
# Tokens of a source text

Each segment of a source text that is not a blank, a newline or a comment gives one item: a token,
or a fault. A token stands on the line on which it ends, a fault on the line on which it begins,
and the end of the text is a token too, the last one.
-/

namespace ScopedScript

/-- Why a segment is not a token. -/
inductive LexFault where
  | unexpectedCharacter (c : Char)
  /-- A number with a point but no digit after it. -/
  | missingFraction (text : List Char)
  deriving DecidableEq, Repr

/-- The wording of a fault. -/
def LexFault.message : LexFault → String
  | .unexpectedCharacter c => "Unexpected character: " ++ String.singleton c
  | .missingFraction text =>
    "Invalid number '" ++ String.ofList text ++ "': expected digit after '.'"

/-- A fault in a source text, and the line it is on. -/
structure LexError where
  fault : LexFault
  line : Nat
  deriving DecidableEq, Repr

/-- A token or a fault. -/
abbrev Item := Except LexError Token

namespace Segment

/-- How far a segment moves the lines on: by one if it is a newline, and by the newlines in it if it
is a string. -/
def advance : Segment → Nat
  | newline => 1
  | string body _ => body.count '\n'
  | _ => 0

/-- The kind of a word: a keyword if it is spelled like one. -/
def kindOfWord (word : String) : Kind :=
  match Keyword.ofWord? word with
  | some k => .keyword k
  | none => .identifier

/-- The kind of token that a segment is, if it is one. -/
def kind? : Segment → Option Kind
  | mark m => some (.mark m)
  | string body _ => some (.string (String.ofList body))
  | number whole fraction => some (.number (Decimal.ofParts whole fraction))
  | word text => some (kindOfWord (String.ofList text))
  | brokenNumber _ | blank _ | newline | comment _ | stray _ => none

/-- Why a segment is a fault, if it is one. -/
def fault? : Segment → Option LexFault
  | brokenNumber whole => some (.missingFraction (whole ++ ['.']))
  | stray c => some (.unexpectedCharacter c)
  | _ => none

/-- What a segment that begins on `line` gives. -/
def item? (s : Segment) (line : Nat) : Option Item :=
  match s.kind?, s.fault? with
  | some kind, _ => some (.ok ⟨kind, String.ofList s.text, line + s.advance⟩)
  | none, some fault => some (.error ⟨fault, line⟩)
  | none, none => none

theorem item?_eq_ok {s : Segment} {line : Nat} {t : Token} :
    s.item? line = some (.ok t) ↔
      s.kind? = some t.kind ∧ t.lexeme = String.ofList s.text ∧ t.line = line + s.advance := by
  obtain ⟨kind, lexeme, tokenLine⟩ := t
  unfold item?
  cases s.kind? with
  | some k => simp [eq_comm]
  | none => cases s.fault? <;> simp

theorem item?_eq_error {s : Segment} {line : Nat} {e : LexError} :
    s.item? line = some (.error e) ↔
      s.kind? = none ∧ s.fault? = some e.fault ∧ e.line = line := by
  obtain ⟨fault, faultLine⟩ := e
  unfold item?
  cases s.kind? with
  | some k => simp
  | none =>
    cases s.fault? with
    | some f => simp [eq_comm]
    | none => simp

end Segment

/-- The items of segments, the first of which begins on `line`. -/
def itemsFrom (line : Nat) : List Segment → List Item
  | [] => [.ok ⟨.eof, "", line⟩]
  | s :: rest => (s.item? line).toList ++ itemsFrom (line + s.advance) rest

/-- The items of a source text. -/
def items (source : String) : List Item := itemsFrom 1 (segments source.toList)

/-- The tokens and the faults of a source text. -/
structure Scan where
  tokens : List Token
  errors : List LexError

/-- Separate tokens from faults. -/
def Scan.ofItems (items : List Item) : Scan where
  tokens := items.filterMap fun
    | .ok token => some token
    | .error _ => none
  errors := items.filterMap fun
    | .ok _ => none
    | .error error => some error

theorem Scan.mem_tokens_ofItems {items : List Item} {t : Token} :
    t ∈ (ofItems items).tokens ↔ .ok t ∈ items := by
  constructor
  · intro h
    obtain ⟨item, hitem, hok⟩ := List.mem_filterMap.mp h
    cases item with
    | ok t' =>
      cases hok
      exact hitem
    | error e => cases hok
  · exact fun h => List.mem_filterMap.mpr ⟨.ok t, h, rfl⟩

/-- The tokens and the faults of a source text. -/
def scan (source : String) : Scan := Scan.ofItems (items source)

end ScopedScript
