import ScopedScript.Proofs.Syntax.Grammar
import ScopedScript.Proofs.Syntax.Written

/-!
# What trees are written as can be derived

Every phrase that a tree is written as is a phrase of the grammar. The one place where the two are
built differently is assignment: a tree is written with any expression before the equals sign, the
grammar has only a name or a property there.
-/

namespace ScopedScript

open Grammar

/-- The name of the phrases of a level. -/
def Level.nonterminal : Level → Nonterminal
  | or => .logicOr
  | and => .logicAnd
  | equality => .equality
  | comparison => .comparison
  | sum => .term
  | product => .factor

/-- The name of the operands of a level. -/
def Level.operandNonterminal (l : Level) : Nonterminal :=
  (l.tighter?.map Level.nonterminal).getD .unary

theorem Level.operand_production (l : Level) :
    [.phrase l.operandNonterminal] ∈ productions l.nonterminal := by
  cases l <;> decide

/-- Every operator of a level stands in a production of the level. -/
theorem Level.operator_production {l : Level} {t : Token} {op : Operator}
    (h : l.operator? t.kind = some op) : ∃ symbol : Symbol, symbol.Matches t ∧
      [.phrase l.nonterminal, symbol, .phrase l.operandNonterminal] ∈
        productions l.nonterminal := by
  unfold Level.operator? at h
  split at h
  case h_13 => cases h
  case h_1 hkind | h_2 hkind => exact ⟨.keyword _, hkind, by decide⟩
  all_goals
    next hkind => exact ⟨.mark _, hkind, by decide⟩

/-- If an expression can be assigned to, the tokens can stand before an equals sign. -/
def Expr.TargetOn (w : List Token) : Expr → Prop
  | .name _ => ∃ t, w = [t] ∧ t.kind = .identifier
  | .get _ _ => ∃ v t u, w = v ++ [t, u] ∧ Nonterminal.call.Yields v ∧ t.kind = .mark .dot ∧
      u.kind = .identifier
  | _ => True

/-- What it means for a phrase of a tree to be a phrase of the grammar. -/
def ExprPhrase.Derived (w : List Token) : ExprPhrase → Prop
  | expression _ => Nonterminal.assignment.Yields w
  | level l e => l.nonterminal.Yields w ∧ e.TargetOn w
  | operand l e => l.operandNonterminal.Yields w ∧ e.TargetOn w
  | operations l left e => ∀ v, l.nonterminal.Yields v → left.TargetOn v →
      l.nonterminal.Yields (v ++ w) ∧ e.TargetOn (v ++ w)
  | unary e => Nonterminal.unary.Yields w ∧ e.TargetOn w
  | calls callee e => ∀ v, Nonterminal.call.Yields v → callee.TargetOn v →
      Nonterminal.call.Yields (v ++ w) ∧ e.TargetOn (v ++ w)
  | arguments es => ∀ most, es.length ≤ most → (Nonterminal.arguments most).Yields w
  | primary e => Nonterminal.primary.Yields w ∧ e.TargetOn w

theorem Operator.targetOn_apply (op : Operator) (line : Nat) (left right : Expr) (w : List Token) :
    (op.apply line left right).TargetOn w := by
  cases op <;> trivial

namespace Grammar.Nonterminal.Yields

variable {n m : Nonterminal} {w : List Token}

/-- A production of a single phrase. -/
theorem of_phrase (hbody : [.phrase m] ∈ productions n) (h : m.Yields w) : n.Yields w :=
  of_splits _ hbody ⟨w, [], (List.append_nil w).symm, h, rfl⟩

/-- A production of a single token. -/
theorem of_token (symbol : Symbol) {t : Token} (hbody : [symbol] ∈ productions n)
    (h : symbol.Matches t) : n.Yields [t] :=
  of_splits _ hbody (by cases symbol <;> first | exact h.elim | exact ⟨t, [], rfl, h, rfl⟩)

/-- A production of a phrase, a token and another phrase. -/
theorem of_between (m : Nonterminal) (symbol : Symbol) (m' : Nonterminal) {t : Token}
    {v : List Token} (hbody : [.phrase m, symbol, .phrase m'] ∈ productions n) (hv : m.Yields v)
    (ht : symbol.Matches t) (hw : m'.Yields w) : n.Yields (v ++ t :: w) := by
  refine of_splits _ hbody ⟨v, t :: w, rfl, hv, ?_⟩
  have hrest : Splits Yields [.phrase m'] w := ⟨w, [], (List.append_nil w).symm, hw, rfl⟩
  cases symbol <;> first | exact ht.elim | exact ⟨t, w, rfl, ht, hrest⟩

/-- A production of a token and a phrase. -/
theorem of_after (symbol : Symbol) {t : Token} (hbody : [symbol, .phrase m] ∈ productions n)
    (ht : symbol.Matches t) (hw : m.Yields w) : n.Yields (t :: w) := by
  refine of_splits _ hbody ?_
  have hrest : Splits Yields [.phrase m] w := ⟨w, [], (List.append_nil w).symm, hw, rfl⟩
  cases symbol <;> first | exact ht.elim | exact ⟨t, w, rfl, ht, hrest⟩

end Grammar.Nonterminal.Yields

theorem UnaryOp.production {t : Token} {op : UnaryOp} (h : UnaryOp.ofKind? t.kind = some op) :
    ∃ symbol : Symbol, symbol.Matches t ∧
      [symbol, .phrase .unary] ∈ productions .unary := by
  unfold UnaryOp.ofKind? at h
  split at h
  case h_3 => cases h
  all_goals
    next hkind => exact ⟨.mark _, hkind, by decide⟩

theorem Literal.production {t : Token} {value : Literal} (h : Literal.ofKind? t.kind = some value) :
    ∃ symbol : Symbol, symbol.Matches t ∧ [symbol] ∈ productions .primary := by
  unfold Literal.ofKind? at h
  split at h
  case h_1 hkind | h_2 hkind | h_3 hkind => exact ⟨.keyword _, hkind, by decide⟩
  case h_4 hkind => exact ⟨.number, ⟨_, hkind⟩, by decide⟩
  case h_5 hkind => exact ⟨.string, ⟨_, hkind⟩, by decide⟩
  case h_6 => cases h

/-- Every phrase that an expression is written as is a phrase of the grammar. -/
theorem WrittenExpr.derived {p : ExprPhrase} {i j : NodeId} {w : List Token}
    (h : WrittenExpr p i w j) : p.Derived w := by
  induction h with
  | plain _ ih => exact .of_phrase (by decide) ih.1
  | assign _ ht _ ih ihvalue =>
      obtain ⟨t', rfl, ht'⟩ := ih.2
      exact .of_splits [.identifier, .mark .equal, .phrase .assignment] (by decide)
        ⟨t', _, rfl, ht', _, _, rfl, ht, _, [], (List.append_nil _).symm, ihvalue, rfl⟩
  | set _ ht _ ih ihvalue =>
      obtain ⟨v, t', u, rfl, hv, ht', hu⟩ := ih.2
      rw [List.append_assoc]
      exact .of_splits [.phrase .call, .mark .dot, .identifier, .mark .equal,
        .phrase .assignment] (by decide) ⟨v, _, rfl, hv, t', _, rfl, ht', u, _, rfl, hu, _, _, rfl,
          ht, _, [], (List.append_nil _).symm, ihvalue, rfl⟩
  | @level l left e _ _ _ _ _ _ _ ih ihrest =>
      exact ihrest _ (.of_phrase l.operand_production ih.1) ih.2
  | @tighter l l' _ _ _ _ hl _ ih =>
      have heq : l.operandNonterminal = l'.nonterminal := by simp [Level.operandNonterminal, hl]
      exact ⟨heq ▸ ih.1, ih.2⟩
  | @tightest l _ _ _ _ hl _ ih =>
      have heq : l.operandNonterminal = .unary := by simp [Level.operandNonterminal, hl]
      exact ⟨heq ▸ ih.1, ih.2⟩
  | noOperation | noCall =>
      intro v hv htarget
      rw [List.append_nil]
      exact ⟨hv, htarget⟩
  | @operation l t op _ _ _ _ w _ u _ hop _ _ ih ihrest =>
      intro v hv _
      obtain ⟨symbol, ht, hbody⟩ := Level.operator_production hop
      have hoperation := Nonterminal.Yields.of_between _ _ _ hbody hv ht ih.1
      have hrest := ihrest _ hoperation (op.targetOn_apply _ _ _ _)
      rwa [List.append_assoc, List.cons_append] at hrest
  | prefixed hop _ ih =>
      obtain ⟨symbol, ht, hbody⟩ := UnaryOp.production hop
      exact ⟨.of_after _ hbody ht ih.1, trivial⟩
  | called _ _ ih ihcalls =>
      obtain ⟨hcall, htarget⟩ := ihcalls _ (.of_phrase (by decide) ih.1) ih.2
      exact ⟨.of_phrase (by decide) hcall, htarget⟩
  | @callWithout t u _ _ _ _ _ ht hu _ ih =>
      intro v hv _
      have hcall : Nonterminal.call.Yields (v ++ [t, u]) :=
        .of_splits [.phrase .call, .mark .leftParen, .mark .rightParen] (by decide)
          ⟨v, _, rfl, hv, t, _, rfl, ht, u, _, rfl, hu, rfl⟩
      have hrest := ih _ hcall trivial
      rwa [List.append_assoc] at hrest
  | @callWith t u _ _ es _ w _ _ _ ht hlength _ hu _ ih ihcalls =>
      intro v hv _
      have hcall : Nonterminal.call.Yields (v ++ (t :: (w ++ [u]))) :=
        .of_splits [.phrase .call, .mark .leftParen, .phrase (.arguments maxArity),
          .mark .rightParen] (by simp [productions]) ⟨v, _, rfl, hv, t, _, rfl, ht, w, _, rfl,
            ih maxArity hlength, u, _, rfl, hu, rfl⟩
      have hrest := ihcalls _ hcall trivial
      simpa using hrest
  | @property t u _ _ _ _ _ ht hu _ ih =>
      intro v hv _
      have hcall : Nonterminal.call.Yields (v ++ [t, u]) :=
        .of_splits [.phrase .call, .mark .dot, .identifier] (by decide)
          ⟨v, _, rfl, hv, t, _, rfl, ht, u, _, rfl, hu, rfl⟩
      have hrest := ih _ hcall ⟨v, t, u, rfl, hv, ht, hu⟩
      rwa [List.append_assoc] at hrest
  | lastArgument _ ih =>
      intro most hmost
      obtain ⟨most, rfl⟩ : ∃ n, most = n + 1 := ⟨most - 1, by simp at hmost; omega⟩
      exact .of_phrase (m := .expression) (by simp [productions]) (.of_phrase (by decide) ih)
  | argument _ ht _ ih ihrest =>
      intro most hmost
      rw [List.length_cons] at hmost
      obtain ⟨most, rfl⟩ : ∃ n, most = n + 1 := ⟨most - 1, by omega⟩
      exact .of_between .expression (.mark .comma) (.arguments most)
        (by simp [productions]) (.of_phrase (by decide) ih) ht (ihrest most (by omega))
  | literal hvalue =>
      obtain ⟨symbol, ht, hbody⟩ := Literal.production hvalue
      exact ⟨.of_token _ hbody ht, trivial⟩
  | @inherited t u v _ ht hu hv =>
      refine ⟨?_, trivial⟩
      exact .of_splits [.keyword .superWord, .mark .dot, .identifier] (by decide)
        ⟨t, _, rfl, ht, u, _, rfl, hu, v, _, rfl, hv, rfl⟩
  | receiver ht => exact ⟨.of_token (.keyword .thisWord) (by decide) ht, trivial⟩
  | @name t _ ht => exact ⟨.of_token .identifier (by decide) ht, t, rfl, ht⟩
  | @grouping t u _ _ w _ ht _ hu ih =>
      refine ⟨?_, trivial⟩
      exact .of_splits [.mark .leftParen, .phrase .expression, .mark .rightParen]
        (by decide) ⟨t, _, rfl, ht, w, _, rfl, .of_phrase (by decide) ih, u, _, rfl, hu, rfl⟩

theorem WrittenExpr.yields {e : Expr} {i j : NodeId} {w : List Token}
    (h : WrittenExpr (.expression e) i w j) : Nonterminal.expression.Yields w :=
  .of_phrase (by decide) h.derived

theorem WrittenOption.yields {e : Option Expr} {i j : NodeId} {w : List Token}
    (h : WrittenOption e i w j) : Nonterminal.optionalExpression.Yields w := by
  cases h with
  | none => exact .of_splits [] (by decide) rfl
  | some h => exact .of_phrase (by decide) h.yields

theorem WrittenSuperclass.yields {ref : Option Reference} {i j : NodeId} {w : List Token}
    (h : WrittenSuperclass ref i w j) : Nonterminal.superclass.Yields w := by
  cases h with
  | none => exact .of_splits [] (by decide) rfl
  | @some t u _ ht hu =>
      exact .of_splits [.mark .less, .identifier] (by decide)
        ⟨t, _, rfl, ht, u, _, rfl, hu, rfl⟩

theorem WrittenParameters.yields {names : List Name} {w : List Token} {most : Nat}
    (h : WrittenParameters names w) (hmost : names.length ≤ most) :
    (Nonterminal.parameters most).Yields w := by
  induction h generalizing most with
  | @last t ht =>
      obtain ⟨most, rfl⟩ : ∃ n, most = n + 1 := ⟨most - 1, by simp at hmost; omega⟩
      exact .of_token .identifier (by simp [productions]) ht
  | @more t u _ w ht hu _ ih =>
      rw [List.length_cons] at hmost
      obtain ⟨most, rfl⟩ : ∃ n, most = n + 1 := ⟨most - 1, by omega⟩
      exact .of_splits [.identifier, .mark .comma, .phrase (.parameters most)]
        (by simp [productions]) ⟨t, _, rfl, ht, u, _, rfl, hu, w, _, (List.append_nil w).symm,
          ih (by omega), rfl⟩

/-- What it means for a phrase of a tree to be a phrase of the grammar. -/
def StmtPhrase.Derived (w : List Token) : StmtPhrase → Prop
  | function _ => Nonterminal.function.Yields w
  | methods _ => Nonterminal.functions.Yields w
  | varDeclaration _ =>
      ∀ t : Token, t.kind = .keyword .varWord → Nonterminal.varDecl.Yields (t :: w)
  | expressionStatement _ => Nonterminal.exprStmt.Yields w
  | forInitial _ => Nonterminal.forInitial.Yields w
  | statement _ _ => Nonterminal.statement.Yields w
  | declaration _ => Nonterminal.declaration.Yields w
  | declarations _ => Nonterminal.declarations.Yields w

/-- A body between braces is a block. -/
theorem Grammar.Nonterminal.Yields.block {o c : Token} {w : List Token}
    (ho : o.kind = .mark .leftBrace) (h : Nonterminal.declarations.Yields w)
    (hc : c.kind = .mark .rightBrace) : Nonterminal.block.Yields (o :: w ++ [c]) :=
  .of_splits [.mark .leftBrace, .phrase .declarations, .mark .rightBrace] (by decide)
    ⟨o, _, rfl, ho, w, _, rfl, h, c, _, rfl, hc, rfl⟩

/-- Every phrase that a statement or a declaration is written as is a phrase of the grammar. -/
theorem WrittenStmt.derived {p : StmtPhrase} {i j : NodeId} {w : List Token}
    (h : WrittenStmt p i w j) : p.Derived w := by
  induction h with
  | @functionWithout t u v o c _ _ _ _ ht hu hv ho _ hc ih =>
      exact .of_splits [.identifier, .mark .leftParen, .mark .rightParen, .phrase .block]
        (by decide) ⟨t, _, rfl, ht, u, _, rfl, hu, v, _, rfl, hv, _, [], (List.append_nil _).symm,
          .block ho ih hc, rfl⟩
  | @functionWith t u v o c _ _ _ p w _ ht hu hlength hp hv ho _ hc ih =>
      rw [List.append_assoc]
      exact .of_splits [.identifier, .mark .leftParen, .phrase (.parameters maxArity),
        .mark .rightParen, .phrase .block] (by simp [productions])
        ⟨t, _, rfl, ht, u, _, rfl, hu, p, _, rfl, hp.yields hlength, v, _, rfl, hv, _, [],
          (List.append_nil _).symm, .block ho ih hc, rfl⟩
  | noMethods | noDeclarations => exact .of_splits [] (by decide) rfl
  | method _ _ ih ihrest =>
      exact .of_splits [.phrase .function, .phrase .functions] (by decide)
        ⟨_, _, rfl, ih, _, [], (List.append_nil _).symm, ihrest, rfl⟩
  | @varWithout t u _ ht hu =>
      intro x hx
      have hinitial : Nonterminal.initializer.Yields [] := .of_splits [] (by decide) rfl
      exact .of_splits [.keyword .varWord, .identifier, .phrase .initializer,
        .mark .semicolon] (by decide)
        ⟨x, _, rfl, hx, t, _, rfl, ht, [], _, rfl, hinitial, u, _, rfl, hu, rfl⟩
  | @varWith t u v _ _ w _ ht hu h hv =>
      intro x hx
      have hinitial : Nonterminal.initializer.Yields (u :: w) :=
        .of_after (.mark .equal) (by decide) hu h.yields
      exact .of_splits [.keyword .varWord, .identifier, .phrase .initializer,
        .mark .semicolon] (by decide)
        ⟨x, _, rfl, hx, t, _, rfl, ht, u :: w, _, rfl, hinitial, v, _, rfl, hv, rfl⟩
  | @expressionStatement _ t _ w _ h ht =>
      exact .of_splits [.phrase .expression, .mark .semicolon] (by decide)
        ⟨w, _, rfl, h.yields, t, _, rfl, ht, rfl⟩
  | noInitial ht => exact .of_token (.mark .semicolon) (by decide) ht
  | varInitial ht _ ih => exact .of_phrase (by decide) (ih _ ht)
  | expressionInitial _ ih => exact .of_phrase (by decide) ih
  | @forLoop t o a c _ _ _ _ _ _ w₁ _ w₂ _ w₃ _ w₄ _ ht ho _ hcondition ha hstep hc _ ihinitial
      ih =>
      have hloop : Nonterminal.forStmt.Yields (t :: o :: (w₁ ++ (w₂ ++ a :: (w₃ ++ c :: w₄)))) :=
        .of_splits [.keyword .forWord, .mark .leftParen, .phrase .forInitial,
          .phrase .optionalExpression, .mark .semicolon, .phrase .optionalExpression,
          .mark .rightParen, .phrase .statement] (by decide)
          ⟨t, _, rfl, ht, o, _, rfl, ho, w₁, _, rfl, ihinitial, w₂, _, rfl, hcondition.yields, a, _,
            rfl, ha, w₃, _, rfl, hstep.yields, c, _, rfl, hc, w₄, [], (List.append_nil _).symm, ih,
            rfl⟩
      have hstatement : Nonterminal.statement.Yields _ := .of_phrase (by decide) hloop
      simpa [StmtPhrase.Derived] using hstatement
  | @ifThen t o c _ _ _ _ w _ v _ ht ho hcondition hc _ ih =>
      have hbranch : Nonterminal.ifStmt.Yields (t :: o :: w ++ c :: v) :=
        .of_splits [.keyword .ifWord, .mark .leftParen, .phrase .expression,
          .mark .rightParen, .phrase .statement] (by decide)
          ⟨t, _, rfl, ht, o, _, rfl, ho, w, _, rfl, hcondition.yields, c, _, rfl, hc, v, [],
            (List.append_nil _).symm, ih, rfl⟩
      exact .of_phrase (by decide) hbranch
  | @ifElse t o c e _ _ _ _ _ w _ v _ u _ ht ho hcondition hc _ he _ ihthen ihelse =>
      have hbranch : Nonterminal.ifStmt.Yields (t :: o :: (w ++ (c :: (v ++ e :: u)))) :=
        .of_splits [.keyword .ifWord, .mark .leftParen, .phrase .expression,
          .mark .rightParen, .phrase .statement, .keyword .elseWord, .phrase .statement]
          (by decide)
          ⟨t, _, rfl, ht, o, _, rfl, ho, w, _, rfl, hcondition.yields, c, _, rfl, hc, v, _, rfl,
            ihthen, e, _, rfl, he, u, [], (List.append_nil _).symm, ihelse, rfl⟩
      have hstatement : Nonterminal.statement.Yields _ := .of_phrase (by decide) hbranch
      simpa [StmtPhrase.Derived] using hstatement
  | @print t u _ _ w _ ht h hu =>
      have hprint : Nonterminal.printStmt.Yields (t :: w ++ [u]) :=
        .of_splits [.keyword .printWord, .phrase .expression, .mark .semicolon]
          (by decide) ⟨t, _, rfl, ht, w, _, rfl, h.yields, u, _, rfl, hu, rfl⟩
      exact .of_phrase (by decide) hprint
  | @giveBack t u _ _ w _ ht h hu =>
      have hreturn : Nonterminal.returnStmt.Yields (t :: w ++ [u]) :=
        .of_splits [.keyword .returnWord, .phrase .optionalExpression, .mark .semicolon]
          (by decide) ⟨t, _, rfl, ht, w, _, rfl, h.yields, u, _, rfl, hu, rfl⟩
      exact .of_phrase (by decide) hreturn
  | @whileLoop t o c _ _ _ _ w _ v _ ht ho hcondition hc _ ih =>
      have hloop : Nonterminal.whileStmt.Yields (t :: o :: w ++ c :: v) :=
        .of_splits [.keyword .whileWord, .mark .leftParen, .phrase .expression,
          .mark .rightParen, .phrase .statement] (by decide)
          ⟨t, _, rfl, ht, o, _, rfl, ho, w, _, rfl, hcondition.yields, c, _, rfl, hc, v, [],
            (List.append_nil _).symm, ih, rfl⟩
      exact .of_phrase (by decide) hloop
  | block ho _ hc ih => exact .of_phrase (by decide) (.block ho ih hc)
  | expression _ ih => exact .of_phrase (by decide) ih
  | @classDef t u o c _ _ _ w _ v _ ht hu hsuperclass ho _ hc ih =>
      have hclass : Nonterminal.classDecl.Yields (t :: u :: (w ++ o :: (v ++ [c]))) :=
        .of_splits [.keyword .classWord, .identifier, .phrase .superclass,
          .mark .leftBrace, .phrase .functions, .mark .rightBrace] (by decide)
          ⟨t, _, rfl, ht, u, _, rfl, hu, w, _, rfl, hsuperclass.yields, o, _, rfl, ho, v, _, rfl,
            ih, c, _, rfl, hc, rfl⟩
      have hdeclaration : Nonterminal.declaration.Yields _ := .of_phrase (by decide) hclass
      simpa [StmtPhrase.Derived] using hdeclaration
  | funDecl ht _ ih =>
      exact .of_phrase (m := .funDecl) (by decide)
        (.of_after (.keyword .funWord) (by decide) ht ih)
  | varDecl ht _ ih => exact .of_phrase (by decide) (ih _ ht)
  | statement _ ih => exact .of_phrase (by decide) ih
  | declaration _ _ ih ihrest =>
      exact .of_splits [.phrase .declaration, .phrase .declarations] (by decide)
        ⟨_, _, rfl, ih, _, [], (List.append_nil _).symm, ihrest, rfl⟩

end ScopedScript
