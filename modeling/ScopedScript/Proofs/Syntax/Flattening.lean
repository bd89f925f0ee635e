import Mathlib.Data.List.Forall2
import ScopedScript.Proofs.Syntax.Written
import ScopedScript.Proofs.Syntax.ExpressionCompleteness
import ScopedScript.Syntax.Occurrences

/-!
# Expressions flattened into tokens

An expression is flattened from left to right. It tells of each of its tokens of which kind it is,
and also which name it shows and which line it stands on where the tree keeps that. The parentheses
of a tree are those that it has groupings for, so not every tree can be read back: the operands of
its operators have to bind tightly enough.
-/

namespace ScopedScript

/-- What an expression tells of one of its tokens. -/
structure Glyph where
  kind : Kind
  text : Option String
  line : Option Nat

namespace Glyph

/-- A token of which only the kind is known. -/
def plain (kind : Kind) : Glyph := ⟨kind, none, none⟩

/-- A token of which the kind and the line are known. -/
def onLine (kind : Kind) (line : Nat) : Glyph := ⟨kind, none, some line⟩

/-- An identifier. -/
def word (name : Name) : Glyph := ⟨.identifier, some name.text, some name.line⟩

/-- A token as it is told, with no text and no line where none is known. -/
def token (g : Glyph) : Token := ⟨g.kind, g.text.getD "", g.line.getD 0⟩

end Glyph

/-- A token is as an expression tells. -/
structure Token.Shows (t : Token) (g : Glyph) : Prop where
  kind_eq : t.kind = g.kind
  lexeme_eq : ∀ x ∈ g.text, t.lexeme = x
  line_eq : ∀ n ∈ g.line, t.line = n

namespace Token

variable {t : Token} {kind : Kind} {line : Nat} {name : Name}

theorem shows_plain : t.Shows (.plain kind) ↔ t.kind = kind :=
  ⟨Shows.kind_eq, fun h => ⟨h, fun _ hx => (nomatch hx), fun _ hn => (nomatch hn)⟩⟩

theorem shows_onLine : t.Shows (.onLine kind line) ↔ t.kind = kind ∧ t.line = line :=
  ⟨fun h => ⟨h.kind_eq, h.line_eq line rfl⟩,
    fun h => ⟨h.1, fun _ hx => (nomatch hx), fun _ hn => h.2.trans (Option.some.inj hn)⟩⟩

theorem shows_word : t.Shows (.word name) ↔ t.kind = .identifier ∧ t.toName = name := by
  constructor
  · intro h
    refine ⟨h.kind_eq, ?_⟩
    rw [Token.toName, h.lexeme_eq name.text rfl, h.line_eq name.line rfl]
  · rintro ⟨hkind, rfl⟩
    exact ⟨hkind, fun _ hx => Option.some.inj hx, fun _ hn => Option.some.inj hn⟩

end Token

theorem Glyph.shows_token (g : Glyph) : g.token.Shows g where
  kind_eq := rfl
  lexeme_eq x hx := by rw [token, Option.mem_def.mp hx]; rfl
  line_eq n hn := by rw [token, Option.mem_def.mp hn]; rfl

/-- Tokens are as an expression tells, one after the other. -/
abbrev Spells (w : List Token) (gs : List Glyph) : Prop := List.Forall₂ Token.Shows w gs

namespace Spells

variable {v w : List Token} {gs gs' : List Glyph}

theorem append (hv : Spells v gs) (hw : Spells w gs') : Spells (v ++ w) (gs ++ gs') :=
  List.rel_append hv hw

theorem exists_append (h : Spells w (gs ++ gs')) :
    ∃ u v, w = u ++ v ∧ Spells u gs ∧ Spells v gs' :=
  ⟨_, _, (List.take_append_drop gs.length w).symm, List.forall₂_take_append _ _ _ h,
    List.forall₂_drop_append _ _ _ h⟩

theorem exists_cons {g : Glyph} (h : Spells w (g :: gs)) :
    ∃ t v, w = t :: v ∧ t.Shows g ∧ Spells v gs := by
  obtain ⟨t, v, hfirst, hrest, rfl⟩ := List.forall₂_cons_right_iff.mp h
  exact ⟨t, v, rfl, hfirst, hrest⟩

theorem exists_single {g : Glyph} (h : Spells w [g]) : ∃ t, w = [t] ∧ t.Shows g := by
  obtain ⟨t, v, rfl, ht, hv⟩ := h.exists_cons
  cases hv
  exact ⟨t, rfl, ht⟩

/-- Whatever is told of tokens, there are some that are so. -/
theorem token (gs : List Glyph) : Spells (gs.map Glyph.token) gs := by
  induction gs with
  | nil => exact .nil
  | cons g gs ih => exact .cons g.shows_token ih

end Spells

namespace UnaryOp

/-- The kind of token that an operator is written as. -/
def kind : UnaryOp → Kind
  | negate => .mark .minus
  | not => .mark .bang

theorem ofKind?_eq_some {k : Kind} {op : UnaryOp} : ofKind? k = some op ↔ k = op.kind := by
  constructor
  · intro h
    unfold ofKind? at h
    split at h <;> cases h <;> rfl
  · rintro rfl
    cases op <;> rfl

end UnaryOp

namespace Operator

/-- The level of an operator. -/
def level : Operator → Level
  | logical .or => .or
  | logical .and => .and
  | binary .equal | binary .notEqual => .equality
  | binary .less | binary .lessEqual | binary .greater | binary .greaterEqual => .comparison
  | binary .add | binary .subtract => .sum
  | binary .multiply | binary .divide => .product

/-- The kind of token that an operator is written as. -/
def kind : Operator → Kind
  | logical .or => .keyword .orWord
  | logical .and => .keyword .andWord
  | binary .equal => .mark .equalEqual
  | binary .notEqual => .mark .bangEqual
  | binary .less => .mark .less
  | binary .lessEqual => .mark .lessEqual
  | binary .greater => .mark .greater
  | binary .greaterEqual => .mark .greaterEqual
  | binary .add => .mark .plus
  | binary .subtract => .mark .minus
  | binary .multiply => .mark .star
  | binary .divide => .mark .slash

end Operator

theorem Level.operator?_eq_some {l : Level} {k : Kind} {op : Operator} :
    l.operator? k = some op ↔ op.level = l ∧ k = op.kind := by
  constructor
  · intro h
    unfold operator? at h
    split at h <;> cases h <;> exact ⟨rfl, rfl⟩
  · rintro ⟨rfl, rfl⟩
    obtain op | op := op <;> cases op <;> rfl

namespace Literal

/-- The kind of token that a constant is written as. -/
def kind : Literal → Kind
  | number value => .number value
  | string text => .string text
  | bool true => .keyword .trueWord
  | bool false => .keyword .falseWord
  | nil => .keyword .nilWord

theorem ofKind?_iff {k : Kind} {value : Literal} : ofKind? k = some value ↔ k = value.kind := by
  constructor
  · intro h
    obtain ⟨rfl, rfl⟩ | ⟨rfl, rfl⟩ | ⟨rfl, rfl⟩ | ⟨_, rfl, rfl⟩ | ⟨_, rfl, rfl⟩ :=
      ofKind?_eq_some h <;> rfl
  · rintro rfl
    cases value with
    | bool value => cases value <;> rfl
    | _ => rfl

end Literal

namespace Expr

mutual

/-- The tokens of an expression, from left to right. -/
def flatten : Expr → List Glyph
  | .literal value => [.plain value.kind]
  | .unary op line operand => .onLine op.kind line :: operand.flatten
  | .binary op line left right =>
    left.flatten ++ .onLine (Operator.binary op).kind line :: right.flatten
  | .logical op line left right =>
    left.flatten ++ .onLine (Operator.logical op).kind line :: right.flatten
  | .grouping inner =>
    .plain (.mark .leftParen) :: inner.flatten ++ [.plain (.mark .rightParen)]
  | .name ref => [.word ref.name]
  | .assign ref value => .word ref.name :: .plain (.mark .equal) :: value.flatten
  | .call callee line arguments =>
    callee.flatten ++
      .plain (.mark .leftParen) :: flattenAll arguments ++ [.onLine (.mark .rightParen) line]
  | .get object property => object.flatten ++ [.plain (.mark .dot), .word property]
  | .set object property value =>
    object.flatten ++
      .plain (.mark .dot) :: .word property :: .plain (.mark .equal) :: value.flatten
  | .receiver _ line => [.onLine (.keyword .thisWord) line]
  | .inherited _ line method =>
    [.onLine (.keyword .superWord) line, .plain (.mark .dot), .word method]

/-- The tokens of arguments, with commas between them. -/
def flattenAll : List Expr → List Glyph
  | [] => []
  | [e] => e.flatten
  | e :: es => e.flatten ++ .plain (.mark .comma) :: flattenAll es

end

/-- How tightly an expression holds together: the higher, the more operators it may be an operand
of. An assignment comes first, then the levels of operators with two operands, operators with one
operand, calls and properties, and what needs no other expression. -/
def strength : Expr → Nat
  | .assign _ _ | .set _ _ _ => 1
  | .binary op _ _ _ => (Operator.binary op).level.strength
  | .logical op _ _ _ => (Operator.logical op).level.strength
  | .unary _ _ _ => 8
  | .call _ _ _ | .get _ _ => 9
  | .literal _ | .grouping _ | .name _ | .receiver _ _ | .inherited _ _ _ => 10

mutual

/-- An expression respects the levels: a left operand holds together as tightly as the level of its
operator, or tighter; a right operand does so tighter; what is called, or has a property, is no
operation. A call has no more arguments than calls may have. -/
def Respects : Expr → Prop
  | .literal _ | .name _ | .receiver _ _ | .inherited _ _ _ => True
  | .unary _ _ operand => 8 ≤ operand.strength ∧ operand.Respects
  | .binary op _ left right =>
    ((Operator.binary op).level.strength ≤ left.strength ∧
      (Operator.binary op).level.strength < right.strength) ∧ left.Respects ∧ right.Respects
  | .logical op _ left right =>
    ((Operator.logical op).level.strength ≤ left.strength ∧
      (Operator.logical op).level.strength < right.strength) ∧ left.Respects ∧ right.Respects
  | .grouping inner => inner.Respects
  | .assign _ value => value.Respects
  | .call callee _ arguments =>
    9 ≤ callee.strength ∧ callee.Respects ∧ arguments.length ≤ maxArity ∧ RespectAll arguments
  | .get object _ => 9 ≤ object.strength ∧ object.Respects
  | .set object _ value => 9 ≤ object.strength ∧ object.Respects ∧ value.Respects

/-- Expressions respect the levels. -/
def RespectAll : List Expr → Prop
  | [] => True
  | e :: es => e.Respects ∧ RespectAll es

end

mutual

/-- The expression with its references numbered from left to right, from `i` on. -/
def numberedFrom (i : NodeId) : Expr → Expr
  | .literal value => .literal value
  | .unary op line operand => .unary op line (operand.numberedFrom i)
  | .binary op line left right =>
    .binary op line (left.numberedFrom i) (right.numberedFrom (i + left.occurrences.length))
  | .logical op line left right =>
    .logical op line (left.numberedFrom i) (right.numberedFrom (i + left.occurrences.length))
  | .grouping inner => .grouping (inner.numberedFrom i)
  | .name ref => .name ⟨i, ref.name⟩
  | .assign ref value => .assign ⟨i, ref.name⟩ (value.numberedFrom (i + 1))
  | .call callee line arguments =>
    .call (callee.numberedFrom i) line
      (numberedAllFrom (i + callee.occurrences.length) arguments)
  | .get object property => .get (object.numberedFrom i) property
  | .set object property value =>
    .set (object.numberedFrom i) property (value.numberedFrom (i + object.occurrences.length))
  | .receiver _ line => .receiver i line
  | .inherited _ line method => .inherited i line method

/-- The expressions with their references numbered from left to right, from `i` on. -/
def numberedAllFrom (i : NodeId) : List Expr → List Expr
  | [] => []
  | e :: es => e.numberedFrom i :: numberedAllFrom (i + e.occurrences.length) es

end

theorem flattenAll_cons_cons (e e' : Expr) (es : List Expr) :
    flattenAll (e :: e' :: es) =
      e.flatten ++ .plain (.mark .comma) :: flattenAll (e' :: es) := rfl

mutual

/-- The tokens of an expression do not tell the numbers of its references. -/
theorem flatten_numberedFrom (e : Expr) (i : NodeId) :
    (e.numberedFrom i).flatten = e.flatten := by
  cases e with
  | literal _ | name _ | receiver _ _ | inherited _ _ _ => rfl
  | unary op line operand => rw [numberedFrom, flatten, operand.flatten_numberedFrom, flatten]
  | binary op line left right | logical op line left right =>
      rw [numberedFrom, flatten, left.flatten_numberedFrom, right.flatten_numberedFrom, flatten]
  | grouping inner => rw [numberedFrom, flatten, inner.flatten_numberedFrom, flatten]
  | assign ref value => rw [numberedFrom, flatten, value.flatten_numberedFrom, flatten]
  | call callee line arguments =>
      rw [numberedFrom, flatten, callee.flatten_numberedFrom, flattenAll_numberedAllFrom, flatten]
  | get object property => rw [numberedFrom, flatten, object.flatten_numberedFrom, flatten]
  | set object property value =>
      rw [numberedFrom, flatten, object.flatten_numberedFrom, value.flatten_numberedFrom, flatten]

theorem flattenAll_numberedAllFrom (es : List Expr) (i : NodeId) :
    flattenAll (numberedAllFrom i es) = flattenAll es := by
  match es with
  | [] => rfl
  | [e] => exact e.flatten_numberedFrom i
  | e :: e' :: es =>
      have hrest := flattenAll_numberedAllFrom (e' :: es) (i + e.occurrences.length)
      rw [numberedAllFrom] at hrest
      rw [numberedAllFrom, numberedAllFrom, flattenAll_cons_cons, hrest, e.flatten_numberedFrom,
        flattenAll_cons_cons]

end

mutual

/-- The references are numbered one after the other. -/
theorem ids_numberedFrom (e : Expr) (i : NodeId) :
    (e.numberedFrom i).occurrences.map Occurrence.id = List.range' i e.occurrences.length := by
  cases e with
  | literal _ | name _ | receiver _ _ | inherited _ _ _ => rfl
  | unary op line operand => exact operand.ids_numberedFrom i
  | binary op line left right | logical op line left right | set left property right =>
      rw [numberedFrom, occurrences, List.map_append, left.ids_numberedFrom,
        right.ids_numberedFrom, List.range'_append_1, occurrences, List.length_append]
  | grouping inner => exact inner.ids_numberedFrom i
  | assign ref value =>
      rw [numberedFrom, occurrences, List.map_cons, value.ids_numberedFrom, occurrences,
        List.length_cons, List.range'_succ]
      rfl
  | call callee line arguments =>
      rw [numberedFrom, occurrences, List.map_append, callee.ids_numberedFrom,
        idsAll_numberedAllFrom, List.range'_append_1, occurrences, List.length_append]
  | get object property => exact object.ids_numberedFrom i

theorem idsAll_numberedAllFrom (es : List Expr) (i : NodeId) :
    (occurrencesAll (numberedAllFrom i es)).map Occurrence.id =
      List.range' i (occurrencesAll es).length := by
  cases es with
  | nil => rfl
  | cons e es =>
      rw [numberedAllFrom, occurrencesAll, List.map_append, e.ids_numberedFrom,
        idsAll_numberedAllFrom es, List.range'_append_1, occurrencesAll, List.length_append]

end

theorem ids_of_append {os os' : List Occurrence} {i : NodeId}
    (h : (os ++ os').map Occurrence.id = List.range' i (os ++ os').length) :
    os.map Occurrence.id = List.range' i os.length ∧
      os'.map Occurrence.id = List.range' (i + os.length) os'.length := by
  rw [List.map_append, List.length_append, ← List.range'_append_1] at h
  exact List.append_inj h (by rw [List.length_map, List.length_range'])

mutual

/-- An expression whose references are numbered one after the other is as it would be numbered. -/
theorem numberedFrom_eq_self (e : Expr) {i : NodeId}
    (hids : e.occurrences.map Occurrence.id = List.range' i e.occurrences.length) :
    e.numberedFrom i = e := by
  cases e with
  | literal value => rfl
  | name ref | receiver id line | inherited id line method =>
      cases List.head_eq_of_cons_eq hids
      rfl
  | unary op line operand => rw [numberedFrom, operand.numberedFrom_eq_self hids]
  | binary op line left right | logical op line left right | set left property right =>
      obtain ⟨hleft, hright⟩ := ids_of_append hids
      rw [numberedFrom, left.numberedFrom_eq_self hleft, right.numberedFrom_eq_self hright]
  | grouping inner => rw [numberedFrom, inner.numberedFrom_eq_self hids]
  | assign ref value =>
      obtain ⟨hid, hvalue⟩ := List.cons.inj hids
      cases hid
      exact congrArg (Expr.assign ref) (value.numberedFrom_eq_self hvalue)
  | call callee line arguments =>
      obtain ⟨hcallee, harguments⟩ := ids_of_append hids
      rw [numberedFrom, callee.numberedFrom_eq_self hcallee,
        numberedAllFrom_eq_self arguments harguments]
  | get object property => rw [numberedFrom, object.numberedFrom_eq_self hids]

theorem numberedAllFrom_eq_self (es : List Expr) {i : NodeId}
    (hids : (occurrencesAll es).map Occurrence.id = List.range' i (occurrencesAll es).length) :
    numberedAllFrom i es = es := by
  cases es with
  | nil => rfl
  | cons e es =>
      obtain ⟨he, hes⟩ := ids_of_append hids
      rw [numberedAllFrom, e.numberedFrom_eq_self he, numberedAllFrom_eq_self es hes]

end

end Expr

end ScopedScript
