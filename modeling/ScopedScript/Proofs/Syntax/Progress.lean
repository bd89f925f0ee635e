import ScopedScript.Proofs.Outcome
import ScopedScript.Syntax.Statements

/-!
# Reading goes forward

However a reader ends, the tokens it leaves are the last ones of those it had, and no number is
given back. This holds also of the readers that go on after a fault. A token that is blamed for a
fault has come next on the way: it was not passed before the reader began, nor is it one that the
reader has not come to.
-/

namespace ScopedScript

/-- A later place of a text. -/
structure Cursor.Precedes (c c' : Cursor) : Prop where
  rest_suffix : c'.rest <:+ c.rest
  eof_eq : c'.eof = c.eof
  nextId_le : c.nextId ≤ c'.nextId

namespace Cursor.Precedes

variable {c c₁ c₂ c₃ : Cursor}

theorem refl (c : Cursor) : c.Precedes c := ⟨List.suffix_refl _, rfl, Nat.le_refl _⟩

theorem trans (h₁ : c₁.Precedes c₂) (h₂ : c₂.Precedes c₃) : c₁.Precedes c₃ where
  rest_suffix := h₂.rest_suffix.trans h₁.rest_suffix
  eof_eq := h₂.eof_eq.trans h₁.eof_eq
  nextId_le := Nat.le_trans h₁.nextId_le h₂.nextId_le

theorem advance (c : Cursor) : c.Precedes c.advance :=
  ⟨List.tail_suffix _, rfl, Nat.le_refl _⟩

theorem fromBoundary_suffix (previous : Token) (tokens : List Token) :
    fromBoundary previous tokens <:+ tokens := by
  induction tokens generalizing previous with
  | nil => exact List.suffix_refl _
  | cons t rest ih =>
      unfold fromBoundary
      split
      · exact List.suffix_refl _
      · exact (ih t).trans (List.suffix_cons t rest)

theorem synchronize (c : Cursor) : c.Precedes c.synchronize := by
  unfold Cursor.synchronize
  cases hrest : c.rest with
  | nil => exact refl c
  | cons t rest =>
      refine ⟨?_, rfl, Nat.le_refl _⟩
      rw [hrest]
      exact (fromBoundary_suffix t rest).trans (List.suffix_cons t rest)

end Cursor.Precedes

/-- A fault at a later place, for which the token is blamed that came next somewhere on the way. -/
def Cursor.StopsAt (c : Cursor) (e : SyntaxError) (c' : Cursor) : Prop :=
  ∃ c₁, c.Precedes c₁ ∧ c₁.Precedes c' ∧ e = c₁.blame e.fault

namespace Cursor.StopsAt

variable {c c₁ c' : Cursor} {e : SyntaxError}

theorem precedes (h : c.StopsAt e c') : c.Precedes c' := by
  obtain ⟨_, hbefore, hafter, _⟩ := h
  exact hbefore.trans hafter

theorem of_precedes (h : c.Precedes c₁) (hstops : c₁.StopsAt e c') : c.StopsAt e c' := by
  obtain ⟨c₂, hbefore, hafter, he⟩ := hstops
  exact ⟨c₂, h.trans hbefore, hafter, he⟩

end Cursor.StopsAt

namespace Reader

variable {α β : Type}

/-- However a reader ends, it ends at a later place, and if that is with a fault then a token is
blamed that came next on the way. -/
def GoesForward (m : Reader α) : Prop :=
  ∀ c, m.Ensures c (fun _ c' => c.Precedes c') (fun e c' => c.StopsAt e c')

theorem goesForward_pure (a : α) : GoesForward (pure a : Reader α) :=
  fun c => .of_ok rfl (.refl c)

theorem goesForward_blame (fault : SyntaxFault) : GoesForward (blame fault : Reader α) :=
  fun c => .of_fault rfl ⟨c, .refl c, .refl c, rfl⟩

theorem goesForward_outOfFuel : GoesForward (Run.outOfFuel : Reader α) :=
  fun _ => .of_exhausted rfl

theorem GoesForward.bind {m : Reader α} {f : α → Reader β} (h : GoesForward m)
    (hf : ∀ a, GoesForward (f a)) : GoesForward (m >>= f) := by
  intro c
  refine (h c).bind fun a c' hc' => ?_
  exact (hf a c').mono (fun _ _ => hc'.trans) (fun _ _ => .of_precedes hc')

theorem GoesForward.map {m : Reader α} {f : α → β} (h : GoesForward m) : GoesForward (f <$> m) := by
  rw [map_eq_pure_bind]
  exact h.bind fun _ => goesForward_pure _

theorem goesForward_gets (f : Cursor → α) : GoesForward (Run.gets f : Reader α) :=
  fun c => .of_ok rfl (.refl c)

theorem goesForward_advance : GoesForward advance := fun c => .of_ok rfl (.advance c)

theorem goesForward_freshId : GoesForward freshId :=
  fun c => .of_ok rfl ⟨List.suffix_refl _, rfl, Nat.le_succ c.nextId⟩

theorem goesForward_accept (m : Mark) : GoesForward (accept m) := by
  refine (goesForward_gets _).bind fun b => ?_
  cases b with
  | true => exact goesForward_advance.bind fun _ => goesForward_pure _
  | false => exact goesForward_pure _

theorem goesForward_expect (m : Mark) (fault : SyntaxFault) : GoesForward (expect m fault) := by
  refine (goesForward_gets _).bind fun b => ?_
  cases b with
  | true =>
      exact (goesForward_gets _).bind fun t => goesForward_advance.bind fun _ => goesForward_pure _
  | false => exact goesForward_blame _

theorem goesForward_identifier (fault : SyntaxFault) : GoesForward (identifier fault) := by
  refine (goesForward_gets _).bind fun t => ?_
  split
  · exact goesForward_advance.bind fun _ => goesForward_pure _
  · exact goesForward_blame _

/-- With a given fuel, the readers of expressions go forward. -/
structure ExprReadersForward (fuel : Nat) : Prop where
  expression : GoesForward (Reader.expression fuel)
  level (l : Level) : GoesForward (Reader.level fuel l)
  operand (l : Level) : GoesForward (Reader.operand fuel l)
  operations (l : Level) (left : Expr) : GoesForward (Reader.operations fuel l left)
  unary : GoesForward (Reader.unary fuel)
  calls (callee : Expr) : GoesForward (Reader.calls fuel callee)
  arguments (count : Nat) : GoesForward (Reader.arguments fuel count)
  primary : GoesForward (Reader.primary fuel)

namespace ExprReadersForward

variable {fuel : Nat}

theorem expression_succ (ih : ExprReadersForward fuel) :
    GoesForward (Reader.expression (fuel + 1)) := by
  refine (ih.level .or).bind fun target => ?_
  intro here
  have hget : (Run.get : Reader Cursor) here = .ok here here := rfl
  refine .bind_of_ok hget ((goesForward_accept _ here).bind fun b c hc => ?_)
  cases b with
  | true =>
      refine ((ih.expression c).mono (fun _ _ => hc.trans) fun _ _ => .of_precedes hc).bind
        fun value c' hc' => ?_
      cases target with
      | name ref => exact .of_ok rfl hc'
      | get object property => exact .of_ok rfl hc'
      -- The equals sign is blamed, which has been passed.
      | _ => exact .of_fault rfl ⟨here, .refl here, hc', rfl⟩
  | false => exact .of_ok rfl hc

theorem operand_succ (ih : ExprReadersForward fuel) (l : Level) :
    GoesForward (Reader.operand (fuel + 1) l) := by
  unfold Reader.operand
  cases l.tighter? with
  | some l => exact ih.level l
  | none => exact ih.unary

theorem operations_succ (ih : ExprReadersForward fuel) (l : Level) (left : Expr) :
    GoesForward (Reader.operations (fuel + 1) l left) := by
  refine (goesForward_gets _).bind fun t => ?_
  cases l.operator? t.kind with
  | none => exact goesForward_pure _
  | some op =>
      exact goesForward_advance.bind fun _ => (ih.operand l).bind fun right => ih.operations l _

theorem unary_succ (ih : ExprReadersForward fuel) : GoesForward (Reader.unary (fuel + 1)) := by
  refine (goesForward_gets _).bind fun t => ?_
  cases UnaryOp.ofKind? t.kind with
  | some op =>
      exact goesForward_advance.bind fun _ => ih.unary.bind fun _ => goesForward_pure _
  | none => exact ih.primary.bind fun callee => ih.calls callee

theorem calls_succ (ih : ExprReadersForward fuel) (callee : Expr) :
    GoesForward (Reader.calls (fuel + 1) callee) := by
  have hclosing (values : List Expr) : GoesForward (do
      let closing ← expect .rightParen .noArgumentsClosing
      Reader.calls fuel (.call callee closing.line values)) :=
    (goesForward_expect _ _).bind fun closing => ih.calls _
  refine (goesForward_accept _).bind fun b => ?_
  cases b with
  | true =>
      refine (goesForward_gets _).bind fun b => ?_
      cases b with
      | true => exact hclosing []
      | false => exact (ih.arguments 0).bind hclosing
  | false =>
      refine (goesForward_accept _).bind fun b => ?_
      cases b with
      | true => exact (goesForward_identifier _).bind fun property => ih.calls _
      | false => exact goesForward_pure _

theorem arguments_succ (ih : ExprReadersForward fuel) (count : Nat) :
    GoesForward (Reader.arguments (fuel + 1) count) := by
  unfold Reader.arguments
  split
  · exact goesForward_blame _
  · refine ih.expression.bind fun value => (goesForward_accept _).bind fun b => ?_
    cases b with
    | true => exact (ih.arguments (count + 1)).bind fun _ => goesForward_pure _
    | false => exact goesForward_pure _

theorem primary_succ (ih : ExprReadersForward fuel) :
    GoesForward (Reader.primary (fuel + 1)) := by
  have hword (e : Expr) : GoesForward (do advance; return e) :=
    goesForward_advance.bind fun _ => goesForward_pure _
  have hnumbered (f : NodeId → Expr) : GoesForward (do advance; return f (← freshId)) :=
    goesForward_advance.bind fun _ => goesForward_freshId.bind fun _ => goesForward_pure _
  refine (goesForward_gets _).bind fun t => ?_
  cases hkind : t.kind with
  | keyword k =>
      cases k with
      | falseWord | trueWord | nilWord => exact hword _
      | thisWord => exact hnumbered fun id => .receiver id t.line
      | superWord =>
          exact goesForward_advance.bind fun _ => (goesForward_expect _ _).bind fun _ =>
            (goesForward_identifier _).bind fun _ => goesForward_freshId.bind fun _ =>
              goesForward_pure _
      | _ => exact goesForward_blame _
  | number value | string text => exact hword _
  | identifier => exact hnumbered fun id => .name ⟨id, ⟨t.lexeme, t.line⟩⟩
  | mark m =>
      cases m with
      | leftParen =>
          exact goesForward_advance.bind fun _ => ih.expression.bind fun _ =>
            (goesForward_expect _ _).bind fun _ => goesForward_pure _
      | _ => exact goesForward_blame _
  | eof => exact goesForward_blame _

end ExprReadersForward

theorem exprReadersForward (fuel : Nat) : ExprReadersForward fuel := by
  induction fuel with
  | zero => constructor <;> intros <;> exact goesForward_outOfFuel
  | succ fuel ih =>
      exact {
        expression := ih.expression_succ
        level := fun l => (ih.operand l).bind fun left => ih.operations l left
        operand := ih.operand_succ
        operations := ih.operations_succ
        unary := ih.unary_succ
        calls := ih.calls_succ
        arguments := ih.arguments_succ
        primary := ih.primary_succ }

theorem goesForward_expression (fuel : Nat) : GoesForward (expression fuel) :=
  (exprReadersForward fuel).expression

theorem goesForward_parameters (fuel count : Nat) : GoesForward (parameters fuel count) := by
  induction fuel generalizing count with
  | zero => exact goesForward_outOfFuel
  | succ fuel ih =>
      unfold parameters
      split
      · exact goesForward_blame _
      · refine (goesForward_identifier _).bind fun name => (goesForward_accept _).bind fun b => ?_
        cases b with
        | true => exact (ih _).bind fun _ => goesForward_pure _
        | false => exact goesForward_pure _

theorem goesForward_expressionUnless (fuel : Nat) (m : Mark) :
    GoesForward (expressionUnless fuel m) := by
  refine (goesForward_gets _).bind fun b => ?_
  cases b with
  | true => exact goesForward_pure _
  | false => exact (goesForward_expression fuel).bind fun _ => goesForward_pure _

theorem goesForward_varDeclaration (fuel : Nat) : GoesForward (varDeclaration fuel) := by
  have hend (name : Name) (initial : Option Expr) : GoesForward (do
      let _ ← expect .semicolon .noVariableEnd
      return Stmt.var name initial) :=
    (goesForward_expect _ _).bind fun _ => goesForward_pure _
  refine (goesForward_identifier _).bind fun name => (goesForward_accept _).bind fun b => ?_
  cases b with
  | true => exact (goesForward_expression fuel).map.bind (hend name)
  | false => exact hend name none

theorem goesForward_expressionStatement (fuel : Nat) : GoesForward (expressionStatement fuel) :=
  (goesForward_expression fuel).bind fun _ => (goesForward_expect _ _).bind fun _ =>
    goesForward_pure _

theorem goesForward_forInitial (fuel : Nat) : GoesForward (forInitial fuel) := by
  refine (goesForward_gets _).bind fun t => ?_
  split
  · exact goesForward_advance.bind fun _ => goesForward_pure _
  · exact goesForward_advance.bind fun _ => (goesForward_varDeclaration fuel).bind fun _ =>
      goesForward_pure _
  · exact (goesForward_expressionStatement fuel).bind fun _ => goesForward_pure _

theorem goesForward_superclass : GoesForward superclass := by
  refine (goesForward_accept _).bind fun b => ?_
  cases b with
  | true =>
      exact (goesForward_identifier _).bind fun _ => goesForward_freshId.bind fun _ =>
        goesForward_pure _
  | false => exact goesForward_pure _

/-- With a given fuel, the readers of statements go forward. -/
structure StmtReadersForward (fuel : Nat) : Prop where
  declaration : GoesForward (Reader.declaration fuel)
  methods : GoesForward (Reader.methods fuel)
  function (routine : Routine) : GoesForward (Reader.function fuel routine)
  block : GoesForward (Reader.block fuel)
  statement : GoesForward (Reader.statement fuel)

namespace StmtReadersForward

variable {fuel : Nat}

theorem declaration_succ (ih : StmtReadersForward fuel) :
    GoesForward (Reader.declaration (fuel + 1)) := by
  refine (goesForward_gets _).bind fun t => ?_
  split
  · exact goesForward_advance.bind fun _ => (goesForward_identifier _).bind fun _ =>
      goesForward_superclass.bind fun _ => (goesForward_expect _ _).bind fun _ =>
        ih.methods.bind fun _ => goesForward_pure _
  · exact goesForward_advance.bind fun _ => (ih.function _).bind fun _ => goesForward_pure _
  · exact goesForward_advance.bind fun _ => goesForward_varDeclaration fuel
  · exact ih.statement

theorem list_succ {item : Reader α} {items : Reader (List α)} {fault : SyntaxFault}
    (hitem : GoesForward item) (hitems : GoesForward items) : GoesForward (do
      if (← atEnd) || (← sees .rightBrace) then
        let _ ← expect .rightBrace fault
        return []
      let first ← item
      return first :: (← items)) := by
  refine (goesForward_gets _).bind fun _ => (goesForward_gets _).bind fun _ => ?_
  split
  · exact (goesForward_expect _ _).bind fun _ => goesForward_pure _
  · exact hitem.bind fun _ => hitems.bind fun _ => goesForward_pure _

theorem function_succ (ih : StmtReadersForward fuel) (routine : Routine) :
    GoesForward (Reader.function (fuel + 1) routine) := by
  have hbody (name : Name) (names : List Name) : GoesForward (do
      let _ ← expect .rightParen .noParametersClosing
      let _ ← expect .leftBrace (.noBodyOpening routine)
      let body ← Reader.block fuel
      return FunctionDecl.mk name names body) :=
    (goesForward_expect _ _).bind fun _ => (goesForward_expect _ _).bind fun _ =>
      ih.block.bind fun _ => goesForward_pure _
  refine (goesForward_identifier _).bind fun name => (goesForward_expect _ _).bind fun _ =>
    (goesForward_gets _).bind fun b => ?_
  cases b with
  | true => exact hbody name []
  | false => exact (goesForward_parameters fuel 0).bind (hbody name)

theorem statement_succ (ih : StmtReadersForward fuel) :
    GoesForward (Reader.statement (fuel + 1)) := by
  have hexpression := goesForward_expression fuel
  refine (goesForward_gets _).bind fun t => ?_
  split
  · exact goesForward_advance.bind fun _ => (goesForward_expect _ _).bind fun _ =>
      (goesForward_forInitial fuel).bind fun _ =>
        (goesForward_expressionUnless fuel _).bind fun _ => (goesForward_expect _ _).bind fun _ =>
          (goesForward_expressionUnless fuel _).bind fun _ =>
            (goesForward_expect _ _).bind fun _ => ih.statement.bind fun _ => goesForward_pure _
  · refine goesForward_advance.bind fun _ => (goesForward_expect _ _).bind fun _ =>
      hexpression.bind fun _ => (goesForward_expect _ _).bind fun _ => ih.statement.bind fun _ =>
        (goesForward_gets _).bind fun next => ?_
    split
    · exact goesForward_advance.bind fun _ => ih.statement.bind fun _ => goesForward_pure _
    · exact goesForward_pure _
  · exact goesForward_advance.bind fun _ => hexpression.bind fun _ =>
      (goesForward_expect _ _).bind fun _ => goesForward_pure _
  · exact goesForward_advance.bind fun _ => (goesForward_expressionUnless fuel _).bind fun _ =>
      (goesForward_expect _ _).bind fun _ => goesForward_pure _
  · exact goesForward_advance.bind fun _ => (goesForward_expect _ _).bind fun _ =>
      hexpression.bind fun _ => (goesForward_expect _ _).bind fun _ => ih.statement.bind fun _ =>
        goesForward_pure _
  · exact goesForward_advance.bind fun _ => ih.block.bind fun _ => goesForward_pure _
  · exact goesForward_expressionStatement fuel

end StmtReadersForward

theorem stmtReadersForward (fuel : Nat) : StmtReadersForward fuel := by
  induction fuel with
  | zero => constructor <;> intros <;> exact goesForward_outOfFuel
  | succ fuel ih =>
      exact {
        declaration := ih.declaration_succ
        methods := StmtReadersForward.list_succ (ih.function .method) ih.methods
        function := ih.function_succ
        block := StmtReadersForward.list_succ ih.declaration ih.block
        statement := ih.statement_succ }

theorem goesForward_program (fuel : Nat) : GoesForward (program fuel) := by
  induction fuel with
  | zero => exact goesForward_outOfFuel
  | succ fuel ih =>
      refine (goesForward_gets _).bind fun b => ?_
      cases b with
      | true => exact goesForward_pure _
      | false =>
          exact (stmtReadersForward fuel).declaration.bind fun _ => ih.bind fun _ =>
            goesForward_pure _

theorem goesForward_attempt {m : Reader α} (h : GoesForward m) :
    GoesForward (Run.attempt m : Reader (Except SyntaxError α)) := by
  intro c
  have hc := h c
  cases hm : m c with
  | ok a c' =>
      have hattempt : (Run.attempt m : Reader (Except SyntaxError α)) c = .ok (.ok a) c' := by
        simp only [Run.attempt, hm]
      exact .of_ok hattempt (hc.ok hm)
  | fault e c' =>
      have hattempt : (Run.attempt m : Reader (Except SyntaxError α)) c = .ok (.error e) c' := by
        simp only [Run.attempt, hm]
      exact .of_ok hattempt (hc.fault hm).precedes
  | exhausted =>
      have hattempt : (Run.attempt m : Reader (Except SyntaxError α)) c = .exhausted := by
        simp only [Run.attempt, hm]
      exact .of_exhausted hattempt

theorem goesForward_recoveringProgram (fuel : Nat) : GoesForward (recoveringProgram fuel) := by
  induction fuel with
  | zero => exact goesForward_outOfFuel
  | succ fuel ih =>
      refine (goesForward_gets _).bind fun b => ?_
      cases b with
      | true => exact goesForward_pure _
      | false =>
          refine (goesForward_attempt (stmtReadersForward fuel).declaration).bind fun first => ?_
          have hrest : GoesForward (do return first :: (← recoveringProgram fuel)) :=
            ih.bind fun _ => goesForward_pure _
          cases first with
          | ok s => exact hrest
          | error e =>
              have hsynchronize : GoesForward (Run.modify Cursor.synchronize) :=
                fun c => .of_ok rfl (.synchronize c)
              exact hsynchronize.bind fun _ => hrest

end Reader

/-- A program that is accepted has been read to its end. -/
theorem readProgram_eq_ok {tokens : List Token} {base : NodeId} {program : List Stmt}
    (h : (readProgram tokens base).result = .ok program) : ∃ c,
      Reader.program (readingFuel tokens) (Cursor.ofTokens tokens base) = .ok program c ∧
        (readProgram tokens base).nextId = c.nextId := by
  unfold readProgram at h ⊢
  cases hread : Reader.program (readingFuel tokens) (Cursor.ofTokens tokens base) with
  | ok program' c =>
      simp only [hread] at h ⊢
      cases h
      exact ⟨c, rfl, rfl⟩
  | fault _ _ | exhausted =>
      simp only [hread] at h
      cases h

end ScopedScript
