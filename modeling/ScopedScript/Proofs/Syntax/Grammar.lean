import ScopedScript.Syntax.Fault

/-!
# The grammar

The context-free grammar of programs, as a table of productions. Repetitions and optional parts
have names of their own, and a rule with a repetition of operators and operands is written with the
repetition on the left. `parameters n` and `arguments n` are lists of at least one and at most `n`
entries; the bound on such lists is the only thing that the table says about numbers.
-/

namespace ScopedScript.Grammar

/-- The names of phrases. -/
inductive Nonterminal where
  | program | declarations | declaration
  | classDecl | superclass | functions | funDecl | function | parameters (most : Nat)
  | varDecl | initializer
  | statement | exprStmt | forStmt | forInitial | ifStmt | printStmt | returnStmt | whileStmt
  | block
  | optionalExpression | expression | assignment
  | logicOr | logicAnd | equality | comparison | term | factor | unary | call
  | arguments (most : Nat) | primary
  deriving DecidableEq, Repr

/-- What the right-hand side of a production is made of: sorts of tokens, and names of phrases. -/
inductive Symbol where
  | mark (m : Mark)
  | keyword (k : Keyword)
  | identifier
  | number
  | string
  | eof
  | phrase (n : Nonterminal)
  deriving DecidableEq, Repr

/-- Whether a token is of the sort that a symbol stands for. -/
def Symbol.Matches (t : Token) : Symbol → Prop
  | mark m => t.kind = .mark m
  | keyword k => t.kind = .keyword k
  | identifier => t.kind = .identifier
  | number => ∃ value, t.kind = .number value
  | string => ∃ text, t.kind = .string text
  | eof => t.kind = .eof
  | phrase _ => False

open Grammar.Nonterminal Grammar.Symbol in
/-- The right-hand sides of the productions of a name. -/
def productions : Nonterminal → List (List Symbol)
  | program => [[phrase declarations, eof]]
  | declarations => [[], [phrase declaration, phrase declarations]]
  | declaration => [[phrase classDecl], [phrase funDecl], [phrase varDecl], [phrase statement]]
  | classDecl =>
    [[keyword .classWord, identifier, phrase superclass, mark .leftBrace, phrase functions,
      mark .rightBrace]]
  | superclass => [[], [mark .less, identifier]]
  | functions => [[], [phrase function, phrase functions]]
  | funDecl => [[keyword .funWord, phrase function]]
  | function =>
    [[identifier, mark .leftParen, mark .rightParen, phrase block],
      [identifier, mark .leftParen, phrase (parameters maxArity), mark .rightParen, phrase block]]
  | parameters 0 => []
  | parameters (most + 1) =>
    [[identifier], [identifier, mark .comma, phrase (parameters most)]]
  | varDecl => [[keyword .varWord, identifier, phrase initializer, mark .semicolon]]
  | initializer => [[], [mark .equal, phrase expression]]
  | statement =>
    [[phrase exprStmt], [phrase forStmt], [phrase ifStmt], [phrase printStmt],
      [phrase returnStmt], [phrase whileStmt], [phrase block]]
  | exprStmt => [[phrase expression, mark .semicolon]]
  | forStmt =>
    [[keyword .forWord, mark .leftParen, phrase forInitial, phrase optionalExpression,
      mark .semicolon, phrase optionalExpression, mark .rightParen, phrase statement]]
  | forInitial => [[phrase varDecl], [phrase exprStmt], [mark .semicolon]]
  | ifStmt =>
    [[keyword .ifWord, mark .leftParen, phrase expression, mark .rightParen, phrase statement],
      [keyword .ifWord, mark .leftParen, phrase expression, mark .rightParen, phrase statement,
        keyword .elseWord, phrase statement]]
  | printStmt => [[keyword .printWord, phrase expression, mark .semicolon]]
  | returnStmt => [[keyword .returnWord, phrase optionalExpression, mark .semicolon]]
  | whileStmt =>
    [[keyword .whileWord, mark .leftParen, phrase expression, mark .rightParen,
      phrase statement]]
  | block => [[mark .leftBrace, phrase declarations, mark .rightBrace]]
  | optionalExpression => [[], [phrase expression]]
  | expression => [[phrase assignment]]
  | assignment =>
    [[identifier, mark .equal, phrase assignment],
      [phrase call, mark .dot, identifier, mark .equal, phrase assignment],
      [phrase logicOr]]
  | logicOr => [[phrase logicAnd], [phrase logicOr, keyword .orWord, phrase logicAnd]]
  | logicAnd => [[phrase equality], [phrase logicAnd, keyword .andWord, phrase equality]]
  | equality =>
    [[phrase comparison], [phrase equality, mark .bangEqual, phrase comparison],
      [phrase equality, mark .equalEqual, phrase comparison]]
  | comparison =>
    [[phrase term], [phrase comparison, mark .greater, phrase term],
      [phrase comparison, mark .greaterEqual, phrase term],
      [phrase comparison, mark .less, phrase term],
      [phrase comparison, mark .lessEqual, phrase term]]
  | term =>
    [[phrase factor], [phrase term, mark .minus, phrase factor],
      [phrase term, mark .plus, phrase factor]]
  | factor =>
    [[phrase unary], [phrase factor, mark .slash, phrase unary],
      [phrase factor, mark .star, phrase unary]]
  | unary => [[mark .bang, phrase unary], [mark .minus, phrase unary], [phrase call]]
  | call =>
    [[phrase primary], [phrase call, mark .leftParen, mark .rightParen],
      [phrase call, mark .leftParen, phrase (arguments maxArity), mark .rightParen],
      [phrase call, mark .dot, identifier]]
  | arguments 0 => []
  | arguments (most + 1) =>
    [[phrase expression], [phrase expression, mark .comma, phrase (arguments most)]]
  | primary =>
    [[number], [string], [keyword .trueWord], [keyword .falseWord], [keyword .nilWord],
      [keyword .thisWord], [identifier], [mark .leftParen, phrase expression, mark .rightParen],
      [keyword .superWord, mark .dot, identifier]]

/-- The tokens can be derived from the symbols. -/
inductive Derives : List Symbol → List Token → Prop where
  | nil : Derives [] []
  | token {symbol : Symbol} {symbols : List Symbol} {t : Token} {w : List Token} :
      symbol.Matches t → Derives symbols w → Derives (symbol :: symbols) (t :: w)
  | phrase {n : Nonterminal} {body symbols : List Symbol} {v w : List Token} :
      body ∈ productions n → Derives body v → Derives symbols w →
      Derives (.phrase n :: symbols) (v ++ w)

/-- The tokens are a phrase of a given name. -/
def Nonterminal.Yields (n : Nonterminal) (w : List Token) : Prop := Derives [.phrase n] w

/-- A sequence of tokens that falls into one part for each symbol, where a part for the name of a
phrase has the property that `P` gives for the name. -/
def Splits (P : Nonterminal → List Token → Prop) : List Symbol → List Token → Prop
  | [], w => w = []
  | .phrase n :: symbols, w => ∃ v u, w = v ++ u ∧ P n v ∧ Splits P symbols u
  | symbol :: symbols, w => ∃ t u, w = t :: u ∧ symbol.Matches t ∧ Splits P symbols u

/-- What is closed under the productions holds of everything that can be derived. -/
theorem Derives.splits {P : Nonterminal → List Token → Prop}
    (hclosed : ∀ n, ∀ body ∈ productions n, ∀ w, Splits P body w → P n w)
    {symbols : List Symbol} {w : List Token} (h : Derives symbols w) : Splits P symbols w := by
  induction h with
  | nil => rfl
  | @token symbol _ t w hmatches _ ih =>
      cases symbol with
      | phrase n => exact hmatches.elim
      | mark _ | keyword _ | identifier | number | string | eof => exact ⟨t, w, rfl, hmatches, ih⟩
  | @phrase n body _ v w hbody _ _ ihbody ih =>
      exact ⟨v, w, rfl, hclosed n body hbody v ihbody, ih⟩

theorem Nonterminal.Yields.closed {P : Nonterminal → List Token → Prop}
    (hclosed : ∀ n, ∀ body ∈ productions n, ∀ w, Splits P body w → P n w)
    {n : Nonterminal} {w : List Token} (h : n.Yields w) : P n w := by
  obtain ⟨v, u, rfl, hv, rfl⟩ := Derives.splits hclosed h
  simpa using hv

theorem Derives.append {first second : List Symbol} {v w : List Token} (hv : Derives first v)
    (hw : Derives second w) : Derives (first ++ second) (v ++ w) := by
  induction hv with
  | nil => exact hw
  | token hmatches _ ih => exact .token hmatches ih
  | phrase hbody hderives _ _ ih =>
      rw [List.append_assoc]
      exact .phrase hbody hderives ih

theorem derives_of_splits {symbols : List Symbol} {w : List Token}
    (h : Splits Nonterminal.Yields symbols w) : Derives symbols w := by
  induction symbols generalizing w with
  | nil =>
      cases h
      exact .nil
  | cons symbol symbols ih =>
      cases symbol with
      | phrase n =>
          obtain ⟨v, u, rfl, hv, hu⟩ := h
          exact Derives.append hv (ih hu)
      | mark _ | keyword _ | identifier | number | string | eof =>
          obtain ⟨t, u, rfl, ht, hu⟩ := h
          exact .token ht (ih hu)

/-- Parts that can be derived make up a phrase by any production. -/
theorem Nonterminal.Yields.of_splits {n : Nonterminal} (body : List Symbol) {w : List Token}
    (hbody : body ∈ productions n) (h : Splits Nonterminal.Yields body w) : n.Yields w := by
  have hphrase := Derives.phrase hbody (derives_of_splits h) .nil
  rwa [List.append_nil] at hphrase

end ScopedScript.Grammar
