import ScopedScript.Proofs.Syntax.Progress
import ScopedScript.Proofs.Syntax.StatementCompleteness
import ScopedScript.Proofs.Syntax.StatementSoundness
import ScopedScript.Proofs.Syntax.TreeOfDerivation

/-!
# What is accepted is what the grammar derives

Reading a program ends well for the texts that the grammar derives, and for no others.
-/

namespace ScopedScript

open Grammar

variable {tokens : List Token} {eof : Token} {base : NodeId}

/-- The reader starts before all the tokens of a text, with the end of the text kept apart. -/
theorem Cursor.ofTokens_append (htokens : ∀ t ∈ tokens, t.kind ≠ .eof) (heof : eof.kind = .eof) :
    Cursor.ofTokens (tokens ++ [eof]) base = ⟨tokens, eof, base⟩ := by
  have heof : eof.isEof = true := Token.isEof_iff.mpr heof
  have htokens : ∀ t ∈ tokens, t.isEof = false := by
    intro t ht
    rw [Bool.eq_false_iff]
    exact fun h => htokens t ht (Token.isEof_iff.mp h)
  unfold Cursor.ofTokens
  congr 1
  · rw [List.takeWhile_append_of_pos (by simpa using htokens)]
    simp [heof]
  · rw [List.find?_append]
    simp [List.find?_eq_none.mpr (by simpa using htokens), heof]

/-- A program is read from its tokens just when it is what they are written as. -/
theorem readProgram_ok_iff_written (htokens : ∀ t ∈ tokens, t.kind ≠ .eof)
    (heof : eof.kind = .eof) {program : List Stmt} :
    (readProgram (tokens ++ [eof]) base).result = .ok program ↔
      ∃ j, WrittenStmt (.declarations program) base tokens j := by
  constructor
  · intro h
    obtain ⟨c, hread, _⟩ := readProgram_eq_ok h
    rw [Cursor.ofTokens_append htokens heof] at hread
    exact ⟨c.nextId, Reader.program_sound hread heof⟩
  · rintro ⟨j, hwritten⟩
    have hread : Reader.program (readingFuel (tokens ++ [eof])) ⟨tokens, eof, base⟩ =
        .ok program ⟨[], eof, j⟩ := by
      refine Reader.program_complete heof hwritten ?_
      simp only [readingFuel, List.length_append, List.length_singleton]
      omega
    unfold readProgram
    rw [Cursor.ofTokens_append htokens heof]
    simp only [hread]

/-- The tokens may stand before an equals sign: a name, or a property of a call. -/
def IsTarget (w : List Token) : Prop :=
  (∃ t, w = [t] ∧ t.kind = .identifier) ∨
    ∃ v t u, w = v ++ [t, u] ∧ Nonterminal.call.Yields v ∧ t.kind = .mark .dot ∧
      u.kind = .identifier

section Assignment

variable {target value rest : List Token} {t u : Token} {i : NodeId} {fuel : Nat}

theorem IsTarget.yields (h : IsTarget target) (ht : t.kind = .mark .equal)
    (hvalue : Nonterminal.assignment.Yields value) :
    Nonterminal.expression.Yields (target ++ t :: value) := by
  refine .of_phrase (m := .assignment) (by decide) ?_
  obtain ⟨x, rfl, hx⟩ | ⟨v, x, y, rfl, hv, hx, hy⟩ := h
  · exact .of_splits [.identifier, .mark .equal, .phrase .assignment] (by decide)
      ⟨x, _, rfl, hx, t, _, rfl, ht, value, [], (List.append_nil _).symm, hvalue, rfl⟩
  · rw [List.append_assoc]
    exact .of_splits [.phrase .call, .mark .dot, .identifier, .mark .equal,
      .phrase .assignment] (by decide) ⟨v, _, rfl, hv, x, _, rfl, hx, y, _, rfl, hy, t, _, rfl, ht,
        value, [], (List.append_nil _).symm, hvalue, rfl⟩

/-- Reading an assignment up to a semicolon asks whether there is a target before the equals
sign. -/
theorem isTarget_of_expression_ok {e : Expr} {c' : Cursor}
    (htarget : Nonterminal.logicOr.Yields target) (ht : t.kind = .mark .equal)
    (hvalue : Nonterminal.assignment.Yields value) (hu : u.kind = .mark .semicolon)
    (hfuel : 16 * (target ++ t :: value).length ≤ fuel + 1)
    (h : Reader.expression (fuel + 1) ⟨target ++ t :: value ++ u :: rest, eof, i⟩ = .ok e c') :
    IsTarget target := by
  obtain ⟨left, k, hleft⟩ := Nonterminal.Yields.hasTree htarget i
  obtain ⟨right, j, hright⟩ := Nonterminal.Yields.hasTree hvalue k
  have hlength := (hleft.starts id).length_pos
  have hend : (Cursor.mk (u :: rest) eof j).peek.kind.strength = 0 := congrArg Kind.strength hu
  rw [ExprPhrase.expression_of_equal hleft.readable hlength ht hright.readable hend hfuel] at h
  have hon : left.TargetOn target := hleft.derived.2
  cases left with
  | name ref => exact Or.inl hon
  | get object property => exact Or.inr hon
  | _ => cases h

/-- The first statement of a program that begins with an assignment has a target. -/
theorem isTarget_of_program_ok {program : List Stmt} {c' : Cursor}
    (htarget : Nonterminal.logicOr.Yields target) (ht : t.kind = .mark .equal)
    (hvalue : Nonterminal.assignment.Yields value) (hu : u.kind = .mark .semicolon)
    (hfuel : 16 * (target ++ t :: value).length ≤ fuel + 1)
    (h : Reader.program (fuel + 4) ⟨target ++ t :: value ++ u :: rest, eof, i⟩ = .ok program c') :
    IsTarget target := by
  obtain ⟨left, k, hleft⟩ := Nonterminal.Yields.hasTree htarget i
  obtain ⟨x, v, rfl, hx⟩ := hleft.starts id
  obtain ⟨_, _, hend, h⟩ := Run.bind_eq_ok.mp h
  cases hend
  obtain ⟨first, c₁, hfirst, _⟩ := Run.bind_eq_ok.mp h
  have hstatement : Reader.expressionStatement (fuel + 1)
      ⟨x :: v ++ t :: value ++ u :: rest, eof, i⟩ = .ok first c₁ := by
    have hstart := Kind.startsStatement_of_startsExpression _ hx
    exact (Reader.statement_of_starts hx).symm.trans
      ((Reader.declaration_of_starts hstart).symm.trans hfirst)
  obtain ⟨e, c₂, hexpression, _⟩ := Run.bind_eq_ok.mp hstatement
  exact isTarget_of_expression_ok htarget ht hvalue hu hfuel hexpression

end Assignment

/-- A text is accepted just when the grammar derives it from the name of programs. In particular,
an equals sign between two expressions is accepted just after a name or a property of a call. -/
theorem readProgram_accepts_iff_yields (htokens : ∀ t ∈ tokens, t.kind ≠ .eof)
    (heof : eof.kind = .eof) (base : NodeId) :
    ((∃ program, (readProgram (tokens ++ [eof]) base).result = .ok program) ↔
      Nonterminal.program.Yields (tokens ++ [eof])) ∧
    ∀ target equal value semicolon, tokens = target ++ equal :: value ++ [semicolon] →
      Nonterminal.logicOr.Yields target → equal.kind = .mark .equal →
      Nonterminal.assignment.Yields value → semicolon.kind = .mark .semicolon →
      ((∃ program, (readProgram (tokens ++ [eof]) base).result = .ok program) ↔
        IsTarget target) := by
  have haccepts : (∃ program, (readProgram (tokens ++ [eof]) base).result = .ok program) ↔
      Nonterminal.program.Yields (tokens ++ [eof]) := by
    simp only [readProgram_ok_iff_written htokens heof]
    constructor
    · rintro ⟨program, j, hwritten⟩
      exact .of_splits [.phrase .declarations, .eof] (by decide)
        ⟨tokens, _, rfl, hwritten.derived, eof, _, rfl, heof, rfl⟩
    · intro h
      obtain ⟨v, t, heq, _, htree⟩ := Nonterminal.Yields.hasTree h
      obtain ⟨rfl, _⟩ := List.append_inj' heq rfl
      exact htree base
  refine ⟨haccepts, ?_⟩
  rintro target equal value semicolon rfl htarget hequal hvalue hsemicolon
  constructor
  · rintro ⟨program, h⟩
    unfold readProgram at h
    rw [Cursor.ofTokens_append htokens heof] at h
    obtain ⟨fuel, hfuel⟩ : ∃ n, readingFuel (target ++ equal :: value ++ [semicolon] ++ [eof]) =
        n + 4 := by
      unfold readingFuel
      exact ⟨_, (Nat.sub_add_cancel (by omega)).symm⟩
    have hbound : 16 * (target ++ equal :: value).length ≤ fuel + 1 := by
      simp only [readingFuel, List.length_append, List.length_cons, List.length_nil] at hfuel ⊢
      omega
    cases hread : Reader.program (fuel + 4)
        ⟨target ++ equal :: value ++ [semicolon], eof, base⟩ with
    | ok program' c' =>
        exact isTarget_of_program_ok htarget hequal hvalue hsemicolon hbound hread
    | fault _ _ =>
        simp only [hfuel, hread] at h
        cases h
    | exhausted =>
        simp only [hfuel, hread] at h
        cases h
  · intro h
    rw [haccepts]
    have hexpression := h.yields hequal hvalue
    have hstatement : Nonterminal.exprStmt.Yields (target ++ equal :: value ++ [semicolon]) :=
      .of_splits [.phrase .expression, .mark .semicolon] (by decide)
        ⟨_, _, rfl, hexpression, semicolon, _, rfl, hsemicolon, rfl⟩
    have hdeclaration : Nonterminal.declaration.Yields (target ++ equal :: value ++ [semicolon]) :=
      .of_phrase (m := .statement) (by decide) (.of_phrase (by decide) hstatement)
    have hempty : Nonterminal.declarations.Yields [] := .of_splits [] (by decide) rfl
    have hdeclarations : Nonterminal.declarations.Yields
        (target ++ equal :: value ++ [semicolon]) :=
      .of_splits [.phrase .declaration, .phrase .declarations] (by decide)
        ⟨_, [], (List.append_nil _).symm, hdeclaration, [], [], rfl, hempty, rfl⟩
    exact .of_splits [.phrase .declarations, .eof] (by decide)
      ⟨_, _, rfl, hdeclarations, eof, _, rfl, heof, rfl⟩

/-- `a = b;` is accepted, and is a program of the grammar. -/
theorem readProgram_accepts_plain_assignment :
    (∃ program, (readProgram ([⟨.identifier, "a", 1⟩, ⟨.mark .equal, "=", 1⟩,
      ⟨.identifier, "b", 1⟩, ⟨.mark .semicolon, ";", 1⟩] ++ [⟨.eof, "", 1⟩]) 0).result =
        .ok program) ∧
    Nonterminal.program.Yields ([⟨.identifier, "a", 1⟩, ⟨.mark .equal, "=", 1⟩,
      ⟨.identifier, "b", 1⟩, ⟨.mark .semicolon, ";", 1⟩] ++ [⟨.eof, "", 1⟩]) := by
  obtain ⟨haccepts, htarget⟩ := readProgram_accepts_iff_yields
    (show ∀ t ∈ ([⟨.identifier, "a", 1⟩, ⟨.mark .equal, "=", 1⟩, ⟨.identifier, "b", 1⟩,
      ⟨.mark .semicolon, ";", 1⟩] : List Token), t.kind ≠ .eof by simp)
    (show (Token.mk .eof "" 1).kind = .eof from rfl) 0
  have hname (text : String) : WrittenExpr (.unary (.name ⟨0, text, 1⟩)) 0
      [⟨.identifier, text, 1⟩] 1 :=
    WrittenExpr.called (.name (t := ⟨.identifier, text, 1⟩) rfl) .noCall
  have hread := (htarget [⟨.identifier, "a", 1⟩] ⟨.mark .equal, "=", 1⟩ [⟨.identifier, "b", 1⟩]
    ⟨.mark .semicolon, ";", 1⟩ rfl ((hname "a").level_of_unary .or).derived.1 rfl
    (WrittenExpr.plain ((hname "b").level_of_unary .or)).derived rfl).mpr
    (Or.inl ⟨_, rfl, rfl⟩)
  exact ⟨hread, haccepts.mp hread⟩

end ScopedScript
