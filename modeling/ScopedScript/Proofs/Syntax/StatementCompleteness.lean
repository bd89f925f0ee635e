import ScopedScript.Proofs.Syntax.ExpressionCompleteness

/-!
# What statements are written as is read as the same statements

The readers of statements look one token ahead, which is enough because the phrases they choose
from begin with tokens of different sorts. Only a statement that ends in an `if` without an `else`
depends on what follows it.
-/

namespace ScopedScript

/-- Whether a statement may begin with a kind of token. -/
def Kind.startsStatement : Kind → Bool
  | .keyword .forWord | .keyword .ifWord | .keyword .printWord | .keyword .returnWord => true
  | .keyword .whileWord | .mark .leftBrace => true
  | k => k.startsExpression

/-- Whether a declaration may begin with a kind of token. -/
def Kind.startsDeclaration : Kind → Bool
  | .keyword .classWord | .keyword .funWord | .keyword .varWord => true
  | k => k.startsStatement

theorem Kind.startsStatement_of_startsExpression (k : Kind) (h : k.startsExpression = true) :
    k.startsStatement = true := by
  unfold Kind.startsStatement
  split <;> first | rfl | exact h

theorem Kind.startsDeclaration_of_startsStatement (k : Kind) (h : k.startsStatement = true) :
    k.startsDeclaration = true := by
  unfold Kind.startsDeclaration
  split <;> first | rfl | exact h

/-- Whether a kind of token is that of an identifier. -/
def Kind.isIdentifier : Kind → Bool
  | .identifier => true
  | _ => false

namespace StmtPhrase

/-- What the tokens that a phrase is written as begin with. -/
def Opens (w : List Token) : StmtPhrase → Prop
  | function _ | varDeclaration _ => Starts Kind.isIdentifier w
  | expressionStatement _ => Starts Kind.startsExpression w
  | statement _ _ => Starts Kind.startsStatement w
  | declaration _ => Starts Kind.startsDeclaration w
  | methods _ => w = [] ∨ Starts Kind.isIdentifier w
  | declarations _ => w = [] ∨ Starts Kind.startsDeclaration w
  | forInitial _ => True

/-- What comes next when a phrase is read to its end. -/
def EndsBefore (k : Kind) : StmtPhrase → Prop
  | statement dangling _ => dangling = true → k ≠ .keyword .elseWord
  | declaration _ => k ≠ .keyword .elseWord
  | methods _ | declarations _ => k = .mark .rightBrace
  | _ => True

/-- The fuel is enough to read a phrase of `n` tokens. -/
def Affords (fuel n : Nat) : StmtPhrase → Prop
  | varDeclaration _ | expressionStatement _ | forInitial _ => 16 * n ≤ fuel
  | function _ | statement _ _ => 16 * n + 1 ≤ fuel
  | declaration _ => 16 * n + 2 ≤ fuel
  | methods _ | declarations _ => 16 * n + 16 ≤ fuel

/-- With a given fuel, the reader of a sort of phrase reads the phrase between two places, and the
brace after it if it is the body of a class or a block. -/
def IsRead (fuel : Nat) (c c' : Cursor) : StmtPhrase → Prop
  | function d => ∀ routine, Reader.function fuel routine c = .ok d c'
  | methods ds => Reader.methods fuel c = .ok ds c'.advance
  | varDeclaration s => Reader.varDeclaration fuel c = .ok s c'
  | expressionStatement s => Reader.expressionStatement fuel c = .ok s c'
  | forInitial initial => Reader.forInitial fuel c = .ok initial c'
  | statement _ s => Reader.statement fuel c = .ok s c'
  | declaration s => Reader.declaration fuel c = .ok s c'
  | declarations ss => Reader.block fuel c = .ok ss c'.advance

/-- A phrase that has been written is read by its reader, if it may end before the token after it
and there is enough fuel. -/
def Readable (p : StmtPhrase) (i : NodeId) (w : List Token) (j : NodeId) : Prop :=
  ∀ fuel eof rest, eof.kind = .eof → p.EndsBefore (Cursor.mk rest eof j).peek.kind →
    p.Affords fuel w.length → p.IsRead fuel ⟨w ++ rest, eof, i⟩ ⟨rest, eof, j⟩

end StmtPhrase

theorem WrittenStmt.opens {p : StmtPhrase} {i j : NodeId} {w : List Token}
    (h : WrittenStmt p i w j) : p.Opens w := by
  induction h with
  | functionWithout ht | functionWith ht | varWithout ht | varWith ht =>
      exact ⟨_, _, rfl, by rw [ht]; rfl⟩
  | noMethods | noDeclarations => exact Or.inl rfl
  | method _ _ ih _ | declaration _ _ ih _ => exact Or.inr (ih.append _)
  | expressionStatement h _ => exact (h.starts id).append _
  | noInitial | varInitial | expressionInitial => trivial
  | forLoop ht | ifThen ht | ifElse ht | print ht => exact ⟨_, _, rfl, by rw [ht]; rfl⟩
  | giveBack ht | whileLoop ht | block ht => exact ⟨_, _, rfl, by rw [ht]; rfl⟩
  | classDef ht | funDecl ht | varDecl ht => exact ⟨_, _, rfl, by rw [ht]; rfl⟩
  | expression _ ih => exact ih.mono Kind.startsStatement_of_startsExpression
  | statement _ ih => exact ih.mono Kind.startsDeclaration_of_startsStatement

namespace Reader

variable {fuel : Nat} {eof : Token} {i j k : NodeId} {v w rest : List Token}

theorem parameters_complete {count : Nat} {names : List Name} (h : WrittenParameters names w)
    (hlength : count + names.length ≤ maxArity)
    (hend : (Cursor.mk rest eof i).peek.kind ≠ .mark .comma) (hfuel : w.length ≤ fuel) :
    parameters fuel count ⟨w ++ rest, eof, i⟩ = .ok names ⟨rest, eof, i⟩ := by
  induction h generalizing fuel count with
  | @last t ht =>
      simp only [List.length_singleton] at hfuel hlength
      obtain ⟨fuel, rfl⟩ : ∃ n, fuel = n + 1 := ⟨fuel - 1, by omega⟩
      unfold parameters
      rw [if_neg (by omega), List.singleton_append, Run.bind_of_ok (identifier_cons ht),
        Run.bind_of_ok (accept_of_ne hend)]
      rfl
  | @more t u names w ht hu _ ih =>
      simp only [List.length_cons] at hfuel hlength
      obtain ⟨fuel, rfl⟩ : ∃ n, fuel = n + 1 := ⟨fuel - 1, by omega⟩
      have hrest : parameters fuel (count + 1) ⟨w ++ rest, eof, i⟩ = .ok names ⟨rest, eof, i⟩ :=
        ih (by omega) (by omega)
      unfold parameters
      rw [if_neg (by omega), List.cons_append, List.cons_append,
        Run.bind_of_ok (identifier_cons ht), Run.bind_of_ok (accept_cons hu), if_pos rfl,
        Run.bind_of_ok hrest]
      rfl

/-- An expression that may be missing ends before a mark that no expression goes on with or begins
with. -/
theorem expressionUnless_complete {m : Mark} {t : Token} {e : Option Expr}
    (h : WrittenOption e i w j) (ht : t.kind = .mark m)
    (hstarts : (Kind.mark m).startsExpression = false) (hstrength : (Kind.mark m).strength = 0)
    (hfuel : 16 * w.length ≤ fuel) :
    expressionUnless fuel m ⟨w ++ t :: rest, eof, i⟩ = .ok e ⟨t :: rest, eof, j⟩ := by
  unfold expressionUnless
  cases h with
  | none =>
      rw [List.nil_append, Run.bind_of_ok (sees_cons ht)]
      rfl
  | some h =>
      have hexpression := h.readable fuel eof (t :: rest)
        (by simp [ExprPhrase.EndsBefore, Cursor.peek, ht, hstrength]) hfuel
      have hsees : sees m ⟨w ++ t :: rest, eof, i⟩ = .ok false _ :=
        sees_of_ne ((h.starts id).peek_kind_ne hstarts)
      rw [Run.bind_of_ok hsees, if_neg Bool.false_ne_true, Run.bind_of_ok hexpression]
      rfl

theorem superclass_complete {t : Token} {ref : Option Reference} (h : WrittenSuperclass ref i w j)
    (ht : t.kind ≠ .mark .less) :
    superclass ⟨w ++ t :: rest, eof, i⟩ = .ok ref ⟨t :: rest, eof, j⟩ := by
  unfold superclass
  cases h with
  | none =>
      have haccept : accept .less ⟨t :: rest, eof, i⟩ = .ok false _ := accept_of_ne ht
      rw [List.nil_append, Run.bind_of_ok haccept]
      rfl
  | @some t' u _ ht' hu =>
      rw [List.cons_append, List.singleton_append, Run.bind_of_ok (accept_cons ht'), if_pos rfl,
        Run.bind_of_ok (identifier_cons hu)]
      rfl

/-- An expression before a mark that no expression goes on with. -/
theorem expression_complete {m : Mark} {t : Token} {e : Expr}
    (h : WrittenExpr (.expression e) i w j) (ht : t.kind = .mark m)
    (hstrength : (Kind.mark m).strength = 0) (hfuel : 16 * w.length ≤ fuel) :
    expression fuel ⟨w ++ t :: rest, eof, i⟩ = .ok e ⟨t :: rest, eof, j⟩ :=
  h.readable fuel eof (t :: rest)
    (by simp [ExprPhrase.EndsBefore, Cursor.peek, ht, hstrength]) hfuel

/-- What begins like an expression is read as an expression statement. -/
theorem statement_of_starts {t : Token} (ht : t.kind.startsExpression = true) :
    statement (fuel + 1) ⟨t :: rest, eof, i⟩ = expressionStatement fuel ⟨t :: rest, eof, i⟩ := by
  unfold statement
  rw [Run.bind_of_ok peek_cons]
  cases hkind : t.kind with
  | mark m =>
      rw [hkind] at ht
      cases m with
      | leftBrace => cases ht
      | _ => rfl
  | keyword word =>
      rw [hkind] at ht
      cases word with
      | forWord | ifWord | printWord | returnWord | whileWord => cases ht
      | _ => rfl
  | identifier | string _ | number _ | eof => rfl

/-- What begins like a statement is read as one. -/
theorem declaration_of_starts {t : Token} (ht : t.kind.startsStatement = true) :
    declaration (fuel + 1) ⟨t :: rest, eof, i⟩ = statement fuel ⟨t :: rest, eof, i⟩ := by
  unfold declaration
  rw [Run.bind_of_ok peek_cons]
  cases hkind : t.kind with
  | keyword word =>
      rw [hkind] at ht
      cases word with
      | classWord | funWord | varWord => cases ht
      | _ => rfl
  | mark _ | identifier | string _ | number _ | eof => rfl

end Reader

namespace StmtPhrase

open Reader

variable {i j k l : NodeId} {v w : List Token}

theorem readable_varWithout {t u : Token} (ht : t.kind = .identifier)
    (hu : u.kind = .mark .semicolon) :
    (varDeclaration (.var t.toName none)).Readable i [t, u] i := by
  intro fuel eof rest _ _ _
  have hequal : accept .equal ⟨u :: rest, eof, i⟩ = .ok false _ :=
    accept_of_ne (by simp [Cursor.peek, hu])
  change Reader.varDeclaration fuel (.mk (t :: u :: rest) eof i) = _
  unfold Reader.varDeclaration
  rw [Run.bind_of_ok (identifier_cons ht), Run.bind_of_ok hequal, if_neg Bool.false_ne_true,
    pure_bind]
  simp only
  rw [Run.bind_of_ok (expect_cons hu)]
  rfl

theorem readable_varWith {t u x : Token} {e : Expr} (ht : t.kind = .identifier)
    (hu : u.kind = .mark .equal) (h : WrittenExpr (.expression e) i w j)
    (hx : x.kind = .mark .semicolon) :
    (varDeclaration (.var t.toName (some e))).Readable i (t :: u :: w ++ [x]) j := by
  intro fuel eof rest _ _ hfuel
  simp only [Affords, List.length_append, List.length_cons, List.length_nil] at hfuel
  have hexpression : (some <$> Reader.expression fuel) ⟨w ++ x :: rest, eof, i⟩ =
      .ok (some e) ⟨x :: rest, eof, j⟩ :=
    Run.map_eq_ok.mpr ⟨e, expression_complete h hx rfl (by omega), rfl⟩
  change Reader.varDeclaration fuel _ = _
  unfold Reader.varDeclaration
  rw [List.append_assoc, List.singleton_append, List.cons_append, List.cons_append,
    Run.bind_of_ok (identifier_cons ht), Run.bind_of_ok (accept_cons hu), if_pos rfl,
    Run.bind_of_ok hexpression]
  simp only
  rw [Run.bind_of_ok (expect_cons hx)]
  rfl

theorem readable_expressionStatement {t : Token} {e : Expr} (h : WrittenExpr (.expression e) i w j)
    (ht : t.kind = .mark .semicolon) :
    (expressionStatement (.expression e)).Readable i (w ++ [t]) j := by
  intro fuel eof rest _ _ hfuel
  simp only [Affords, List.length_append, List.length_cons, List.length_nil] at hfuel
  change Reader.expressionStatement fuel _ = _
  unfold Reader.expressionStatement
  rw [List.append_assoc, List.singleton_append,
    Run.bind_of_ok (expression_complete h ht rfl (by omega)), Run.bind_of_ok (expect_cons ht)]
  rfl

theorem readable_noInitial {t : Token} (ht : t.kind = .mark .semicolon) :
    (forInitial none).Readable i [t] i := by
  intro fuel eof rest _ _ _
  change Reader.forInitial fuel (.mk (t :: rest) eof i) = _
  unfold Reader.forInitial
  rw [Run.bind_of_ok peek_cons, ht]
  rfl

theorem readable_varInitial {t : Token} {s : Stmt} (ht : t.kind = .keyword .varWord)
    (h : (varDeclaration s).Readable i w j) : (forInitial (some s)).Readable i (t :: w) j := by
  intro fuel eof rest heof _ hfuel
  simp only [Affords, List.length_cons] at hfuel
  have hvar : Reader.varDeclaration fuel _ = _ :=
    h fuel eof rest heof trivial (by simp only [Affords]; omega)
  change Reader.forInitial fuel (.mk (t :: (w ++ rest)) eof i) = _
  unfold Reader.forInitial
  rw [Run.bind_of_ok peek_cons, ht]
  simp only
  rw [Run.bind_of_ok advance_cons, Run.bind_of_ok hvar]
  rfl

theorem readable_expressionInitial {s : Stmt} (h : (expressionStatement s).Readable i w j)
    (hstarts : Starts Kind.startsExpression w) : (forInitial (some s)).Readable i w j := by
  intro fuel eof rest heof _ hfuel
  have hs : Reader.expressionStatement fuel _ = _ := h fuel eof rest heof trivial hfuel
  obtain ⟨t, u, rfl, ht⟩ := hstarts
  -- the list is not taken for an empty one
  have hpeek : peek ⟨t :: u ++ rest, eof, i⟩ = .ok t _ := rfl
  -- what begins like an expression is neither a semicolon nor the word `var`
  have hread : (do return some (← Reader.expressionStatement fuel) : Reader (Option Stmt))
      ⟨t :: u ++ rest, eof, i⟩ = .ok (some s) ⟨rest, eof, j⟩ := by
    rw [Run.bind_of_ok hs]
    rfl
  change Reader.forInitial fuel _ = _
  unfold Reader.forInitial
  rw [Run.bind_of_ok hpeek]
  cases hkind : t.kind with
  | mark m =>
      rw [hkind] at ht
      cases m with
      | semicolon => cases ht
      | _ => exact hread
  | keyword word =>
      rw [hkind] at ht
      cases word with
      | varWord => cases ht
      | _ => exact hread
  | identifier | string _ | number _ | eof => exact hread

/-- The end of a body, at the brace after it. -/
theorem peek_rightBrace {rest : List Token} {eof : Token} (heof : eof.kind = .eof)
    (hend : (Cursor.mk rest eof i).peek.kind = .mark .rightBrace) :
    ∃ t u, rest = t :: u ∧ t.kind = .mark .rightBrace := by
  cases rest with
  | nil => cases heof.symm.trans hend
  | cons t u => exact ⟨t, u, rfl, hend⟩

/-- At a brace, a reader that goes on to a closing brace stops. -/
theorem stop_at_rightBrace {α : Type} {t eof : Token} {rest : List Token} {fault : SyntaxFault}
    (ht : t.kind = .mark .rightBrace) (stop : α) (more : Reader α) :
    (do
      if (← atEnd) || (← sees .rightBrace) then
        let _ ← expect .rightBrace fault
        return stop
      more : Reader α) ⟨t :: rest, eof, i⟩ = .ok stop ⟨rest, eof, i⟩ := by
  rw [Run.bind_of_ok (show atEnd _ = _ from rfl), Run.bind_of_ok (sees_cons ht)]
  simp only [Bool.or_true, if_true]
  rw [Run.bind_of_ok (expect_cons ht)]
  rfl

/-- Before anything else, a reader that goes on to a closing brace goes on. -/
theorem go_on_before {α : Type} {p : Kind → Bool} {eof : Token} {rest : List Token}
    {fault : SyntaxFault} (hw : Starts p w) (hp : p (.mark .rightBrace) = false) (stop : α)
    (more : Reader α) :
    (do
      if (← atEnd) || (← sees .rightBrace) then
        let _ ← expect .rightBrace fault
        return stop
      more : Reader α) ⟨w ++ rest, eof, i⟩ = more ⟨w ++ rest, eof, i⟩ := by
  have hsees : sees .rightBrace ⟨w ++ rest, eof, i⟩ = .ok false _ := sees_of_ne (hw.peek_kind_ne hp)
  have hend : atEnd ⟨w ++ rest, eof, i⟩ = .ok false ⟨w ++ rest, eof, i⟩ := by
    obtain ⟨t, u, rfl, _⟩ := hw
    rfl
  rw [Run.bind_of_ok hend, Run.bind_of_ok hsees]
  rfl

theorem readable_noMethods : (methods []).Readable i [] i := by
  intro fuel eof rest heof hend hfuel
  obtain ⟨t, u, rfl, ht⟩ := peek_rightBrace heof hend
  obtain ⟨fuel, rfl⟩ : ∃ n, fuel = n + 1 := ⟨fuel - 1, by simp only [Affords] at hfuel; omega⟩
  exact stop_at_rightBrace ht _ _

theorem readable_method {d : FunctionDecl} {ds : List FunctionDecl}
    (h : (function d).Readable i w k) (hw : Starts Kind.isIdentifier w)
    (hrest : (methods ds).Readable k v j) : (methods (d :: ds)).Readable i (w ++ v) j := by
  intro fuel eof rest heof hend hfuel
  have hlength := hw.length_pos
  simp only [Affords, List.length_append] at hfuel
  obtain ⟨fuel, rfl⟩ : ∃ n, fuel = n + 1 := ⟨fuel - 1, by omega⟩
  have hfunction : Reader.function fuel .method _ = _ :=
    h fuel eof (v ++ rest) heof trivial (by simp only [Affords]; omega) .method
  have hmethods : Reader.methods fuel _ = _ :=
    hrest fuel eof rest heof hend (by simp only [Affords]; omega)
  rw [List.append_assoc]
  refine (go_on_before hw rfl _ _).trans ?_
  rw [Run.bind_of_ok hfunction, Run.bind_of_ok hmethods]
  rfl

theorem readable_noDeclarations : (declarations []).Readable i [] i := by
  intro fuel eof rest heof hend hfuel
  obtain ⟨t, u, rfl, ht⟩ := peek_rightBrace heof hend
  obtain ⟨fuel, rfl⟩ : ∃ n, fuel = n + 1 := ⟨fuel - 1, by simp only [Affords] at hfuel; omega⟩
  exact stop_at_rightBrace ht _ _

/-- What comes after a declaration in a body is never an `else`. -/
theorem no_else_after {rest : List Token} {eof : Token} {ss : List Stmt}
    (hv : (declarations ss).Opens v)
    (hend : (Cursor.mk rest eof j).peek.kind ≠ .keyword .elseWord) :
    (Cursor.mk (v ++ rest) eof k).peek.kind ≠ .keyword .elseWord := by
  obtain rfl | hv := hv
  · exact hend
  · exact hv.peek_kind_ne rfl

theorem readable_declaration {s : Stmt} {ss : List Stmt} (h : (declaration s).Readable i w k)
    (hw : Starts Kind.startsDeclaration w) (hrest : (declarations ss).Readable k v j)
    (hv : (declarations ss).Opens v) : (declarations (s :: ss)).Readable i (w ++ v) j := by
  intro fuel eof rest heof hend hfuel
  have hlength := hw.length_pos
  simp only [Affords, List.length_append] at hfuel
  obtain ⟨fuel, rfl⟩ : ∃ n, fuel = n + 1 := ⟨fuel - 1, by omega⟩
  -- a declaration may be an `if` without an `else`, so what comes after it matters
  have helse : (Cursor.mk (v ++ rest) eof k).peek.kind ≠ .keyword .elseWord := by
    refine no_else_after (j := j) hv ?_
    rw [hend]
    simp
  have hfirst : Reader.declaration fuel _ = _ :=
    h fuel eof (v ++ rest) heof helse (by simp only [Affords]; omega)
  have hblock : Reader.block fuel _ = _ :=
    hrest fuel eof rest heof hend (by simp only [Affords]; omega)
  rw [List.append_assoc]
  refine (go_on_before hw rfl _ _).trans ?_
  rw [Run.bind_of_ok hfirst, Run.bind_of_ok hblock]
  rfl

section Bodies

variable {t u x o c : Token} {body : List Stmt}

/-- A body between its braces is read after the opening brace. -/
theorem block_complete {fuel : Nat} {eof : Token} {rest : List Token} (heof : eof.kind = .eof)
    (h : (declarations body).Readable i w j) (hc : c.kind = .mark .rightBrace)
    (hfuel : 16 * w.length + 16 ≤ fuel) :
    Reader.block fuel ⟨w ++ c :: rest, eof, i⟩ = .ok body ⟨rest, eof, j⟩ :=
  h fuel eof (c :: rest) heof hc hfuel

theorem readable_functionWithout (ht : t.kind = .identifier) (hu : u.kind = .mark .leftParen)
    (hx : x.kind = .mark .rightParen) (ho : o.kind = .mark .leftBrace)
    (h : (declarations body).Readable i w j) (hc : c.kind = .mark .rightBrace) :
    (function ⟨t.toName, [], body⟩).Readable i (t :: u :: x :: o :: w ++ [c]) j := by
  intro fuel eof rest heof _ hfuel routine
  simp only [Affords, List.length_append, List.length_cons, List.length_nil] at hfuel
  obtain ⟨fuel, rfl⟩ : ∃ n, fuel = n + 1 := ⟨fuel - 1, by omega⟩
  have hblock : Reader.block fuel ⟨w ++ c :: rest, eof, i⟩ = .ok body ⟨rest, eof, j⟩ :=
    block_complete heof h hc (by omega)
  rw [List.append_assoc]
  unfold Reader.function
  rw [List.cons_append, List.cons_append, List.cons_append, List.cons_append,
    Run.bind_of_ok (identifier_cons ht), Run.bind_of_ok (expect_cons hu),
    Run.bind_of_ok (sees_cons hx), if_pos rfl, pure_bind]
  simp only
  rw [Run.bind_of_ok (expect_cons hx), Run.bind_of_ok (expect_cons ho), List.singleton_append,
    Run.bind_of_ok hblock]
  rfl

theorem readable_functionWith {names : List Name} {p : List Token} (ht : t.kind = .identifier)
    (hu : u.kind = .mark .leftParen) (hlength : names.length ≤ maxArity)
    (hp : WrittenParameters names p) (hx : x.kind = .mark .rightParen)
    (ho : o.kind = .mark .leftBrace) (h : (declarations body).Readable i w j)
    (hc : c.kind = .mark .rightBrace) :
    (function ⟨t.toName, names, body⟩).Readable i (t :: u :: p ++ x :: o :: w ++ [c]) j := by
  intro fuel eof rest heof _ hfuel routine
  simp only [Affords, List.length_append, List.length_cons, List.length_nil] at hfuel
  obtain ⟨fuel, rfl⟩ : ∃ n, fuel = n + 1 := ⟨fuel - 1, by omega⟩
  have hblock : Reader.block fuel ⟨w ++ c :: rest, eof, i⟩ = .ok body ⟨rest, eof, j⟩ :=
    block_complete heof h hc (by omega)
  have hparameters : parameters fuel 0 ⟨p ++ x :: o :: (w ++ c :: rest), eof, i⟩ =
      .ok names ⟨x :: o :: (w ++ c :: rest), eof, i⟩ :=
    parameters_complete hp (by omega) (by simp [Cursor.peek, hx]) (by omega)
  have hpeek :
      (Cursor.mk (p ++ x :: o :: (w ++ c :: rest)) eof i).peek.kind ≠ .mark .rightParen := by
    cases hp with
    | last ht | more ht => simp [Cursor.peek, ht]
  simp only [List.append_assoc, List.cons_append, List.nil_append]
  unfold Reader.function
  rw [Run.bind_of_ok (identifier_cons ht), Run.bind_of_ok (expect_cons hu),
    Run.bind_of_ok (sees_of_ne hpeek), if_neg Bool.false_ne_true, Run.bind_of_ok hparameters]
  simp only
  rw [Run.bind_of_ok (expect_cons hx), Run.bind_of_ok (expect_cons ho), Run.bind_of_ok hblock]
  rfl

theorem readable_block (ho : o.kind = .mark .leftBrace) (h : (declarations body).Readable i w j)
    (hc : c.kind = .mark .rightBrace) :
    (statement false (.block body)).Readable i (o :: w ++ [c]) j := by
  intro fuel eof rest heof _ hfuel
  simp only [Affords, List.length_append, List.length_cons, List.length_nil] at hfuel
  obtain ⟨fuel, rfl⟩ : ∃ n, fuel = n + 1 := ⟨fuel - 1, by omega⟩
  have hblock : Reader.block fuel ⟨w ++ c :: rest, eof, i⟩ = .ok body ⟨rest, eof, j⟩ :=
    block_complete heof h hc (by omega)
  change Reader.statement (fuel + 1) _ = _
  unfold Reader.statement
  rw [List.append_assoc, List.singleton_append, List.cons_append, Run.bind_of_ok peek_cons, ho]
  simp only
  rw [Run.bind_of_ok advance_cons, Run.bind_of_ok hblock]
  rfl

theorem readable_classDef {superclass : Option Reference} {ds : List FunctionDecl}
    (ht : t.kind = .keyword .classWord) (hu : u.kind = .identifier)
    (hsuperclass : WrittenSuperclass superclass i w k) (ho : o.kind = .mark .leftBrace)
    (h : (methods ds).Readable k v j) (hc : c.kind = .mark .rightBrace) :
    (declaration (.classDef u.toName superclass ds)).Readable i
      (t :: u :: w ++ o :: v ++ [c]) j := by
  intro fuel eof rest heof _ hfuel
  simp only [Affords, List.length_append, List.length_cons, List.length_nil] at hfuel
  obtain ⟨fuel, rfl⟩ : ∃ n, fuel = n + 1 := ⟨fuel - 1, by omega⟩
  have hmethods : Reader.methods fuel ⟨v ++ c :: rest, eof, k⟩ = .ok ds ⟨rest, eof, j⟩ :=
    h fuel eof (c :: rest) heof hc (by simp only [Affords]; omega)
  have hheader : Reader.superclass ⟨w ++ o :: (v ++ c :: rest), eof, i⟩ =
      .ok superclass ⟨o :: (v ++ c :: rest), eof, k⟩ :=
    superclass_complete hsuperclass (by simp [ho])
  change Reader.declaration (fuel + 1) _ = _
  simp only [List.append_assoc, List.cons_append, List.nil_append]
  unfold Reader.declaration
  rw [Run.bind_of_ok peek_cons, ht]
  simp only
  rw [Run.bind_of_ok advance_cons, Run.bind_of_ok (identifier_cons hu), Run.bind_of_ok hheader,
    Run.bind_of_ok (expect_cons ho), Run.bind_of_ok hmethods]
  rfl

end Bodies

section Statements

variable {t u o a c x : Token} {dangling : Bool} {condition e : Expr} {s : Stmt}

theorem readable_print (ht : t.kind = .keyword .printWord) (h : WrittenExpr (.expression e) i w j)
    (hu : u.kind = .mark .semicolon) :
    (statement false (.print e)).Readable i (t :: w ++ [u]) j := by
  intro fuel eof rest _ _ hfuel
  simp only [Affords, List.length_append, List.length_cons, List.length_nil] at hfuel
  obtain ⟨fuel, rfl⟩ : ∃ n, fuel = n + 1 := ⟨fuel - 1, by omega⟩
  change Reader.statement (fuel + 1) _ = _
  unfold Reader.statement
  rw [List.append_assoc, List.singleton_append, List.cons_append, Run.bind_of_ok peek_cons, ht]
  simp only
  rw [Run.bind_of_ok advance_cons, Run.bind_of_ok (expression_complete h hu rfl (by omega)),
    Run.bind_of_ok (expect_cons hu)]
  rfl

theorem readable_giveBack {value : Option Expr} (ht : t.kind = .keyword .returnWord)
    (h : WrittenOption value i w j) (hu : u.kind = .mark .semicolon) :
    (statement false (.giveBack t.line value)).Readable i (t :: w ++ [u]) j := by
  intro fuel eof rest _ _ hfuel
  simp only [Affords, List.length_append, List.length_cons, List.length_nil] at hfuel
  obtain ⟨fuel, rfl⟩ : ∃ n, fuel = n + 1 := ⟨fuel - 1, by omega⟩
  change Reader.statement (fuel + 1) _ = _
  unfold Reader.statement
  rw [List.append_assoc, List.singleton_append, List.cons_append, Run.bind_of_ok peek_cons, ht]
  simp only
  rw [Run.bind_of_ok advance_cons,
    Run.bind_of_ok (expressionUnless_complete h hu rfl rfl (by omega)),
    Run.bind_of_ok (expect_cons hu)]
  rfl

theorem readable_whileLoop (ht : t.kind = .keyword .whileWord) (ho : o.kind = .mark .leftParen)
    (hcondition : WrittenExpr (.expression condition) i w k) (hc : c.kind = .mark .rightParen)
    (h : (statement dangling s).Readable k v j) :
    (statement dangling (.loop condition s)).Readable i (t :: o :: w ++ c :: v) j := by
  intro fuel eof rest heof hend hfuel
  simp only [Affords, List.length_append, List.length_cons] at hfuel
  obtain ⟨fuel, rfl⟩ : ∃ n, fuel = n + 1 := ⟨fuel - 1, by omega⟩
  have hbody : Reader.statement fuel _ = _ :=
    h fuel eof rest heof hend (by simp only [Affords]; omega)
  change Reader.statement (fuel + 1) _ = _
  simp only [List.append_assoc, List.cons_append]
  unfold Reader.statement
  rw [Run.bind_of_ok peek_cons, ht]
  simp only
  rw [Run.bind_of_ok advance_cons, Run.bind_of_ok (expect_cons ho),
    Run.bind_of_ok (expression_complete hcondition hc rfl (by omega)),
    Run.bind_of_ok (expect_cons hc), Run.bind_of_ok hbody]
  rfl

theorem readable_forLoop {initial : Option Stmt} {condition step : Option Expr} {m : NodeId}
    {w₁ w₂ w₃ w₄ : List Token} (ht : t.kind = .keyword .forWord) (ho : o.kind = .mark .leftParen)
    (hinitial : (forInitial initial).Readable i w₁ k) (hcondition : WrittenOption condition k w₂ l)
    (ha : a.kind = .mark .semicolon) (hstep : WrittenOption step l w₃ m)
    (hc : c.kind = .mark .rightParen) (h : (statement dangling s).Readable m w₄ j) :
    (statement dangling (.forLoop initial condition step s)).Readable i
      (t :: o :: w₁ ++ w₂ ++ a :: w₃ ++ c :: w₄) j := by
  intro fuel eof rest heof hend hfuel
  simp only [Affords, List.length_append, List.length_cons] at hfuel
  obtain ⟨fuel, rfl⟩ : ∃ n, fuel = n + 1 := ⟨fuel - 1, by omega⟩
  have hbody : Reader.statement fuel _ = _ :=
    h fuel eof rest heof hend (by simp only [Affords]; omega)
  have hstart : Reader.forInitial fuel _ = _ :=
    hinitial fuel eof (w₂ ++ a :: (w₃ ++ c :: (w₄ ++ rest))) heof trivial
      (by simp only [Affords]; omega)
  change Reader.statement (fuel + 1) _ = _
  simp only [List.append_assoc, List.cons_append]
  unfold Reader.statement
  rw [Run.bind_of_ok peek_cons, ht]
  simp only
  rw [Run.bind_of_ok advance_cons, Run.bind_of_ok (expect_cons ho), Run.bind_of_ok hstart,
    Run.bind_of_ok (expressionUnless_complete hcondition ha rfl rfl (by omega)),
    Run.bind_of_ok (expect_cons ha),
    Run.bind_of_ok (expressionUnless_complete hstep hc rfl rfl (by omega)),
    Run.bind_of_ok (expect_cons hc), Run.bind_of_ok hbody]
  rfl

theorem readable_ifElse {thenBranch elseBranch : Stmt} {w₁ : List Token}
    (ht : t.kind = .keyword .ifWord) (ho : o.kind = .mark .leftParen)
    (hcondition : WrittenExpr (.expression condition) i w k) (hc : c.kind = .mark .rightParen)
    (hthen : (statement false thenBranch).Readable k v l) (hx : x.kind = .keyword .elseWord)
    (helse : (statement dangling elseBranch).Readable l w₁ j) :
    (statement dangling (.ifElse condition thenBranch elseBranch)).Readable i
      (t :: o :: w ++ c :: v ++ x :: w₁) j := by
  intro fuel eof rest heof hend hfuel
  simp only [Affords, List.length_append, List.length_cons] at hfuel
  obtain ⟨fuel, rfl⟩ : ∃ n, fuel = n + 1 := ⟨fuel - 1, by omega⟩
  -- the branch before an `else` is not dangling, so it may be followed by one
  have hfirst : Reader.statement fuel ⟨v ++ x :: (w₁ ++ rest), eof, k⟩ = .ok thenBranch _ :=
    hthen fuel eof (x :: (w₁ ++ rest)) heof (fun hfalse => (Bool.false_ne_true hfalse).elim)
      (by simp only [Affords]; omega)
  have hsecond : Reader.statement fuel _ = _ :=
    helse fuel eof rest heof hend (by simp only [Affords]; omega)
  change Reader.statement (fuel + 1) _ = _
  simp only [List.append_assoc, List.cons_append]
  unfold Reader.statement
  rw [Run.bind_of_ok peek_cons, ht]
  simp only
  rw [Run.bind_of_ok advance_cons, Run.bind_of_ok (expect_cons ho),
    Run.bind_of_ok (expression_complete hcondition hc rfl (by omega)),
    Run.bind_of_ok (expect_cons hc), Run.bind_of_ok hfirst, Run.bind_of_ok peek_cons, hx]
  simp only
  rw [Run.bind_of_ok advance_cons, Run.bind_of_ok hsecond]
  rfl

theorem readable_ifThen {thenBranch : Stmt} (ht : t.kind = .keyword .ifWord)
    (ho : o.kind = .mark .leftParen) (hcondition : WrittenExpr (.expression condition) i w k)
    (hc : c.kind = .mark .rightParen) (hthen : (statement dangling thenBranch).Readable k v j) :
    (statement true (.ifThen condition thenBranch)).Readable i (t :: o :: w ++ c :: v) j := by
  intro fuel eof rest heof hend hfuel
  simp only [Affords, List.length_append, List.length_cons] at hfuel
  obtain ⟨fuel, rfl⟩ : ∃ n, fuel = n + 1 := ⟨fuel - 1, by omega⟩
  -- the branch may be dangling itself, and then it is this `if` that no `else` follows
  have hnext := hend rfl
  have hfirst : Reader.statement fuel _ = _ :=
    hthen fuel eof rest heof (fun _ => hnext) (by simp only [Affords]; omega)
  change Reader.statement (fuel + 1) _ = _
  simp only [List.append_assoc, List.cons_append]
  unfold Reader.statement
  rw [Run.bind_of_ok peek_cons, ht]
  simp only
  rw [Run.bind_of_ok advance_cons, Run.bind_of_ok (expect_cons ho),
    Run.bind_of_ok (expression_complete hcondition hc rfl (by omega)),
    Run.bind_of_ok (expect_cons hc), Run.bind_of_ok hfirst,
    Run.bind_of_ok (show Reader.peek _ = _ from rfl)]
  cases hkind : (Cursor.mk rest eof j).peek.kind with
  | keyword word =>
      cases word with
      | elseWord => exact (hnext hkind).elim
      | _ => rfl
  | mark _ | identifier | string _ | number _ | eof => rfl

theorem readable_expression (h : (expressionStatement s).Readable i w j)
    (hw : Starts Kind.startsExpression w) : (statement false s).Readable i w j := by
  intro fuel eof rest heof hend hfuel
  simp only [Affords] at hfuel
  obtain ⟨fuel, rfl⟩ : ∃ n, fuel = n + 1 := ⟨fuel - 1, by omega⟩
  have hread : Reader.expressionStatement fuel _ = _ :=
    h fuel eof rest heof trivial (by simp only [Affords]; omega)
  obtain ⟨t, u, rfl, ht⟩ := hw
  exact (statement_of_starts ht).trans hread

theorem readable_statement (h : (statement dangling s).Readable i w j)
    (hw : Starts Kind.startsStatement w) : (declaration s).Readable i w j := by
  intro fuel eof rest heof hend hfuel
  simp only [Affords] at hfuel
  obtain ⟨fuel, rfl⟩ : ∃ n, fuel = n + 1 := ⟨fuel - 1, by omega⟩
  have hread : Reader.statement fuel _ = _ :=
    h fuel eof rest heof (fun _ => hend) (by simp only [Affords]; omega)
  obtain ⟨t, u, rfl, ht⟩ := hw
  exact (declaration_of_starts ht).trans hread

theorem readable_funDecl {d : FunctionDecl} (ht : t.kind = .keyword .funWord)
    (h : (function d).Readable i w j) : (declaration (.function d)).Readable i (t :: w) j := by
  intro fuel eof rest heof _ hfuel
  simp only [Affords, List.length_cons] at hfuel
  obtain ⟨fuel, rfl⟩ : ∃ n, fuel = n + 1 := ⟨fuel - 1, by omega⟩
  have hread : Reader.function fuel .function _ = _ :=
    h fuel eof rest heof trivial (by simp only [Affords]; omega) .function
  change Reader.declaration (fuel + 1) (.mk (t :: (w ++ rest)) eof i) = _
  unfold Reader.declaration
  rw [Run.bind_of_ok peek_cons, ht]
  simp only
  rw [Run.bind_of_ok advance_cons, Run.bind_of_ok hread]
  rfl

theorem readable_varDecl (ht : t.kind = .keyword .varWord) (h : (varDeclaration s).Readable i w j) :
    (declaration s).Readable i (t :: w) j := by
  intro fuel eof rest heof _ hfuel
  simp only [Affords, List.length_cons] at hfuel
  obtain ⟨fuel, rfl⟩ : ∃ n, fuel = n + 1 := ⟨fuel - 1, by omega⟩
  have hread : Reader.varDeclaration fuel _ = _ :=
    h fuel eof rest heof trivial (by simp only [Affords]; omega)
  change Reader.declaration (fuel + 1) (.mk (t :: (w ++ rest)) eof i) = _
  unfold Reader.declaration
  rw [Run.bind_of_ok peek_cons, ht]
  simp only
  rw [Run.bind_of_ok advance_cons]
  exact hread

end Statements

end StmtPhrase

/-- Every phrase of a statement or a declaration that has been written can be read. -/
theorem WrittenStmt.readable {p : StmtPhrase} {i j : NodeId} {w : List Token}
    (h : WrittenStmt p i w j) : p.Readable i w j := by
  induction h with
  | functionWithout ht hu hx ho _ hc ih =>
      exact StmtPhrase.readable_functionWithout ht hu hx ho ih hc
  | functionWith ht hu hlength hp hx ho _ hc ih =>
      exact StmtPhrase.readable_functionWith ht hu hlength hp hx ho ih hc
  | noMethods => exact StmtPhrase.readable_noMethods
  | method h _ ih ihrest => exact StmtPhrase.readable_method ih h.opens ihrest
  | varWithout ht hu => exact StmtPhrase.readable_varWithout ht hu
  | varWith ht hu h hx => exact StmtPhrase.readable_varWith ht hu h hx
  | expressionStatement h ht => exact StmtPhrase.readable_expressionStatement h ht
  | noInitial ht => exact StmtPhrase.readable_noInitial ht
  | varInitial ht _ ih => exact StmtPhrase.readable_varInitial ht ih
  | expressionInitial h ih => exact StmtPhrase.readable_expressionInitial ih h.opens
  | forLoop ht ho _ hcondition ha hstep hc _ ihinitial ih =>
      exact StmtPhrase.readable_forLoop ht ho ihinitial hcondition ha hstep hc ih
  | ifThen ht ho hcondition hc _ ih => exact StmtPhrase.readable_ifThen ht ho hcondition hc ih
  | ifElse ht ho hcondition hc _ hx _ ihthen ihelse =>
      exact StmtPhrase.readable_ifElse ht ho hcondition hc ihthen hx ihelse
  | print ht h hu => exact StmtPhrase.readable_print ht h hu
  | giveBack ht h hu => exact StmtPhrase.readable_giveBack ht h hu
  | whileLoop ht ho hcondition hc _ ih => exact StmtPhrase.readable_whileLoop ht ho hcondition hc ih
  | block ho _ hc ih => exact StmtPhrase.readable_block ho ih hc
  | expression h ih => exact StmtPhrase.readable_expression ih h.opens
  | classDef ht hu hsuperclass ho _ hc ih =>
      exact StmtPhrase.readable_classDef ht hu hsuperclass ho ih hc
  | funDecl ht _ ih => exact StmtPhrase.readable_funDecl ht ih
  | varDecl ht _ ih => exact StmtPhrase.readable_varDecl ht ih
  | statement h ih => exact StmtPhrase.readable_statement ih h.opens
  | noDeclarations => exact StmtPhrase.readable_noDeclarations
  | declaration h hrest ih ihrest =>
      exact StmtPhrase.readable_declaration ih h.opens ihrest hrest.opens

/-- Declarations up to the end of the text are read as a program. -/
theorem Reader.program_complete {fuel : Nat} {eof : Token} {i j : NodeId} {w : List Token}
    {program : List Stmt} (heof : eof.kind = .eof) (h : WrittenStmt (.declarations program) i w j)
    (hfuel : 16 * w.length + 16 ≤ fuel) :
    Reader.program fuel ⟨w, eof, i⟩ = .ok program ⟨[], eof, j⟩ := by
  induction program generalizing fuel i w with
  | nil =>
      obtain ⟨fuel, rfl⟩ : ∃ n, fuel = n + 1 := ⟨fuel - 1, by omega⟩
      cases h
      rfl
  | cons first program ih =>
      obtain ⟨fuel, rfl⟩ : ∃ n, fuel = n + 1 := ⟨fuel - 1, by omega⟩
      cases h with
      | @declaration _ _ _ w k v _ hfirst hrest =>
          have hstarts : Starts Kind.startsDeclaration w := hfirst.opens
          have hlength := hstarts.length_pos
          rw [List.length_append] at hfuel
          -- the end of the text is no `else` either
          have helse : (Cursor.mk v eof k).peek.kind ≠ .keyword .elseWord := by
            have hend : (Cursor.mk [] eof j).peek.kind ≠ .keyword .elseWord := by
              simp [Cursor.peek, heof]
            have hnext := StmtPhrase.no_else_after (k := k) hrest.opens hend
            rwa [List.append_nil] at hnext
          have hdeclaration : Reader.declaration fuel _ = _ :=
            hfirst.readable fuel eof v heof helse
              (by simp only [StmtPhrase.Affords]; omega)
          have hend : atEnd ⟨w ++ v, eof, i⟩ = .ok false ⟨w ++ v, eof, i⟩ := by
            obtain ⟨t, u, rfl, _⟩ := hstarts
            rfl
          unfold Reader.program
          rw [Run.bind_of_ok hend, if_neg Bool.false_ne_true, Run.bind_of_ok hdeclaration,
            Run.bind_of_ok (ih hrest (by omega))]
          rfl

end ScopedScript
