import ScopedScript.Proofs.Relabelling.Mirror
import ScopedScript.Proofs.Relabelling.Syntax

/-!
# Reading from other numbers and lines

What is read from tokens does not depend on the lines they stand on, nor on the number from which
references are numbered: the tree that is read, or the fault, is the same one with these changed.
-/

namespace ScopedScript

section Definitions

variable (g : Relabelling)

/-- A token on another line. -/
def Token.relabel (t : Token) : Token := { t with line := g.line t.line }

/-- A place among tokens on other lines, from which references have other numbers. -/
def Cursor.relabel (c : Cursor) : Cursor :=
  ⟨c.rest.map (Token.relabel g), c.eof.relabel g, g.node c.nextId⟩

/-- A fault for which a token on another line is blamed. -/
def SyntaxError.relabel (e : SyntaxError) : SyntaxError := { e with token := e.token.relabel g }

/-- What reading makes of other numbers and lines. -/
def Relabelling.reading : Mirror SyntaxError Cursor := ⟨.relabel g, .relabel g, fun _ => True⟩

end Definitions

variable {g : Relabelling}

namespace Cursor

@[simp] theorem peek_relabel (c : Cursor) : (c.relabel g).peek = c.peek.relabel g := by
  unfold peek relabel
  cases c.rest <;> rfl

@[simp] theorem atEnd_relabel (c : Cursor) : (c.relabel g).atEnd = c.atEnd := by
  unfold atEnd relabel
  cases c.rest <;> rfl

@[simp] theorem advance_relabel (c : Cursor) : (c.relabel g).advance = c.advance.relabel g := by
  unfold advance relabel
  cases c.rest <;> rfl

@[simp] theorem blame_relabel (c : Cursor) (fault : SyntaxFault) :
    (c.relabel g).blame fault = (c.blame fault).relabel g := by
  unfold blame SyntaxError.relabel
  rw [peek_relabel]
  simp [relabel]

end Cursor

@[simp] theorem Operator.relabel_apply (op : Operator) (line : Nat) (left right : Expr) :
    (op.apply line left right).relabel g = op.apply (g.line line) (left.relabel g)
      (right.relabel g) := by
  cases op <;> rfl

theorem Stmt.relabel_forLoop (initial : Option Stmt) (condition step : Option Expr) (body : Stmt) :
    (Stmt.forLoop initial condition step body).relabel g =
      Stmt.forLoop (initial.map (Stmt.relabel g)) (condition.map (Expr.relabel g))
        (step.map (Expr.relabel g)) (body.relabel g) := by
  cases initial <;> cases condition <;> cases step <;> rfl

namespace Reader

open Mirror (Reflects)

variable {α β : Type}

/-- Two readers do the same, but for numbers and lines. -/
abbrev Relabels (g : Relabelling) (value : α → β) (m : Reader α) (m' : Reader β) : Prop :=
  g.reading.Reflects value m m'

theorem relabels_peek : Relabels g (Token.relabel g) peek peek := .gets Cursor.peek_relabel

theorem relabels_atEnd : Relabels g id atEnd atEnd := .gets Cursor.atEnd_relabel

theorem relabels_advance : Relabels g id advance advance :=
  .modify Cursor.advance_relabel fun _ _ => trivial

theorem relabels_blame (fault : SyntaxFault) (value : α → β) :
    Relabels g value (blame fault) (blame fault) := by
  refine fun c _ => ⟨?_, .of_fault rfl trivial⟩
  change Outcome.fault ((c.relabel g).blame fault) _ = _
  rw [Cursor.blame_relabel]
  rfl

theorem relabels_sees (m : Mark) : Relabels g id (sees m) (sees m) := by
  refine .gets fun c => ?_
  change (!(c.relabel g).atEnd && (c.relabel g).peek.isMark m) = _
  rw [Cursor.atEnd_relabel, Cursor.peek_relabel]
  rfl

theorem relabels_accept (m : Mark) : Relabels g id (accept m) (accept m) := by
  refine (relabels_sees m).bind fun b => ?_
  cases b with
  | true => exact relabels_advance.bind fun _ => .pure true
  | false => exact .pure false

theorem relabels_expect (m : Mark) (fault : SyntaxFault) :
    Relabels g (Token.relabel g) (expect m fault) (expect m fault) := by
  refine (relabels_sees m).bind fun b => ?_
  cases b with
  | true => exact relabels_peek.bind fun t => relabels_advance.bind fun _ => .pure t
  | false => exact relabels_blame fault _

theorem relabels_identifier (fault : SyntaxFault) :
    Relabels g (Name.relabel g) (identifier fault) (identifier fault) := by
  refine relabels_peek.bind fun t => ?_
  obtain ⟨kind, lexeme, line⟩ := t
  cases kind with
  | identifier => exact relabels_advance.bind fun _ => .pure (Name.mk lexeme line)
  | _ => exact relabels_blame fault _

section Numbers

variable (hnode : ∀ id, g.node (id + 1) = g.node id + 1)
include hnode

theorem relabels_freshId : Relabels g g.node freshId freshId := by
  refine .update (fun _ => rfl) (fun c => ?_) (fun _ _ => trivial)
  exact congrArg (Cursor.mk _ _) (hnode c.nextId).symm

end Numbers

/-- With a given fuel, the readers of expressions do the same, but for numbers and lines. -/
structure RelabelExprReaders (g : Relabelling) (fuel : Nat) : Prop where
  expression : Relabels g (Expr.relabel g) (Reader.expression fuel) (Reader.expression fuel)
  level (l : Level) : Relabels g (Expr.relabel g) (Reader.level fuel l) (Reader.level fuel l)
  operand (l : Level) : Relabels g (Expr.relabel g) (Reader.operand fuel l) (Reader.operand fuel l)
  operations (l : Level) (left : Expr) : Relabels g (Expr.relabel g)
    (Reader.operations fuel l left) (Reader.operations fuel l (left.relabel g))
  unary : Relabels g (Expr.relabel g) (Reader.unary fuel) (Reader.unary fuel)
  calls (callee : Expr) : Relabels g (Expr.relabel g)
    (Reader.calls fuel callee) (Reader.calls fuel (callee.relabel g))
  arguments (count : Nat) : Relabels g (Expr.relabelAll g)
    (Reader.arguments fuel count) (Reader.arguments fuel count)
  primary : Relabels g (Expr.relabel g) (Reader.primary fuel) (Reader.primary fuel)

namespace RelabelExprReaders

variable {fuel : Nat}

theorem expression_succ (ih : RelabelExprReaders g fuel) :
    Relabels g (Expr.relabel g) (Reader.expression (fuel + 1)) (Reader.expression (fuel + 1)) := by
  refine (ih.level .or).bind fun target => .get_bind fun here _ =>
    (relabels_accept _).bind fun b => ?_
  cases b with
  | true =>
      refine ih.expression.bind fun value => ?_
      have hfail : Relabels g (Expr.relabel g) (Run.fail (here.blame .invalidTarget))
          (Run.fail ((here.relabel g).blame .invalidTarget)) := by
        rw [Cursor.blame_relabel]
        exact .fail (here.blame .invalidTarget)
      cases target with
      | name ref => exact .pure (Expr.assign ref value)
      | get object property => exact .pure (Expr.set object property value)
      | _ => exact hfail
  | false => exact .pure target

theorem operand_succ (ih : RelabelExprReaders g fuel) (l : Level) :
    Relabels g (Expr.relabel g) (Reader.operand (fuel + 1) l) (Reader.operand (fuel + 1) l) := by
  unfold Reader.operand
  cases l.tighter? with
  | some l => exact ih.level l
  | none => exact ih.unary

theorem operations_succ (ih : RelabelExprReaders g fuel) (l : Level) (left : Expr) :
    Relabels g (Expr.relabel g) (Reader.operations (fuel + 1) l left)
      (Reader.operations (fuel + 1) l (left.relabel g)) := by
  refine relabels_peek.bind fun t => ?_
  obtain ⟨kind, lexeme, line⟩ := t
  simp only [Token.relabel]
  cases l.operator? kind with
  | none => exact .pure left
  | some op =>
      refine relabels_advance.bind fun _ => (ih.operand l).bind fun right => ?_
      rw [← Operator.relabel_apply]
      exact ih.operations l _

theorem unary_succ (ih : RelabelExprReaders g fuel) :
    Relabels g (Expr.relabel g) (Reader.unary (fuel + 1)) (Reader.unary (fuel + 1)) := by
  refine relabels_peek.bind fun t => ?_
  obtain ⟨kind, lexeme, line⟩ := t
  simp only [Token.relabel]
  cases UnaryOp.ofKind? kind with
  | some op =>
      exact relabels_advance.bind fun _ =>
        ih.unary.bind fun operand => .pure (Expr.unary op line operand)
  | none => exact ih.primary.bind fun callee => ih.calls callee

theorem calls_succ (ih : RelabelExprReaders g fuel) (callee : Expr) :
    Relabels g (Expr.relabel g) (Reader.calls (fuel + 1) callee)
      (Reader.calls (fuel + 1) (callee.relabel g)) := by
  have hclosing (values : List Expr) : Relabels g (Expr.relabel g)
      (do
        let closing ← expect .rightParen .noArgumentsClosing
        Reader.calls fuel (.call callee closing.line values))
      (do
        let closing ← expect .rightParen .noArgumentsClosing
        Reader.calls fuel (.call (callee.relabel g) closing.line (Expr.relabelAll g values))) :=
    (relabels_expect _ _).bind fun closing => ih.calls (.call callee closing.line values)
  refine (relabels_accept _).bind fun b => ?_
  cases b with
  | true =>
      refine (relabels_sees _).bind fun b => ?_
      cases b with
      | true => exact hclosing []
      | false => exact (ih.arguments 0).bind hclosing
  | false =>
      refine (relabels_accept _).bind fun b => ?_
      cases b with
      | true =>
          exact (relabels_identifier _).bind fun property => ih.calls (.get callee property)
      | false => exact .pure callee

theorem arguments_succ (ih : RelabelExprReaders g fuel) (count : Nat) :
    Relabels g (Expr.relabelAll g) (Reader.arguments (fuel + 1) count)
      (Reader.arguments (fuel + 1) count) := by
  unfold Reader.arguments
  split
  · exact relabels_blame _ _
  · refine ih.expression.bind fun value => (relabels_accept _).bind fun b => ?_
    cases b with
    | true => exact (ih.arguments (count + 1)).bind fun values => .pure (value :: values)
    | false => exact .pure [value]

theorem primary_succ (hnode : ∀ id, g.node (id + 1) = g.node id + 1)
    (ih : RelabelExprReaders g fuel) :
    Relabels g (Expr.relabel g) (Reader.primary (fuel + 1)) (Reader.primary (fuel + 1)) := by
  have hword (value : Literal) : Relabels g (Expr.relabel g)
      (do advance; return .literal value) (do advance; return .literal value) :=
    relabels_advance.bind fun _ => .pure (Expr.literal value)
  have hfresh := relabels_freshId hnode
  refine relabels_peek.bind fun t => ?_
  obtain ⟨kind, lexeme, line⟩ := t
  cases kind with
  | keyword k =>
      cases k with
      | falseWord | trueWord | nilWord => exact hword _
      | thisWord =>
          exact relabels_advance.bind fun _ => hfresh.bind fun id => .pure (Expr.receiver id line)
      | superWord =>
          exact relabels_advance.bind fun _ => (relabels_expect _ _).bind fun _ =>
            (relabels_identifier _).bind fun method => hfresh.bind fun id =>
              .pure (Expr.inherited id line method)
      | _ => exact relabels_blame _ _
  | number value | string text => exact hword _
  | identifier =>
      exact relabels_advance.bind fun _ =>
        hfresh.bind fun id => .pure (Expr.name ⟨id, ⟨lexeme, line⟩⟩)
  | mark m =>
      cases m with
      | leftParen =>
          exact relabels_advance.bind fun _ => ih.expression.bind fun inner =>
            (relabels_expect _ _).bind fun _ => .pure (Expr.grouping inner)
      | _ => exact relabels_blame _ _
  | eof => exact relabels_blame _ _

end RelabelExprReaders

theorem relabelExprReaders (hnode : ∀ id, g.node (id + 1) = g.node id + 1) (fuel : Nat) :
    RelabelExprReaders g fuel := by
  induction fuel with
  | zero => constructor <;> intros <;> exact .outOfFuel
  | succ fuel ih =>
      exact {
        expression := ih.expression_succ
        level := fun l => (ih.operand l).bind fun left => ih.operations l left
        operand := ih.operand_succ
        operations := ih.operations_succ
        unary := ih.unary_succ
        calls := ih.calls_succ
        arguments := ih.arguments_succ
        primary := ih.primary_succ hnode }

theorem relabels_parameters (fuel count : Nat) :
    Relabels g (List.map (Name.relabel g)) (parameters fuel count) (parameters fuel count) := by
  induction fuel generalizing count with
  | zero => exact .outOfFuel
  | succ fuel ih =>
      unfold parameters
      split
      · exact relabels_blame _ _
      · refine (relabels_identifier _).bind fun name => (relabels_accept _).bind fun b => ?_
        cases b with
        | true => exact (ih (count + 1)).bind fun names => .pure (name :: names)
        | false => exact .pure [name]

theorem relabels_superclass (hnode : ∀ id, g.node (id + 1) = g.node id + 1) :
    Relabels g (Option.map (Reference.relabel g)) superclass superclass := by
  refine (relabels_accept _).bind fun b => ?_
  cases b with
  | true =>
      exact (relabels_identifier _).bind fun name => (relabels_freshId hnode).bind fun id =>
        .pure (some (Reference.mk id name))
  | false => exact .pure none

section Expressions

variable {fuel : Nat}
  (hexpression : Relabels g (Expr.relabel g) (Reader.expression fuel) (Reader.expression fuel))
include hexpression

theorem relabels_expressionUnless (m : Mark) : Relabels g (Option.map (Expr.relabel g))
    (expressionUnless fuel m) (expressionUnless fuel m) := by
  refine (relabels_sees m).bind fun b => ?_
  cases b with
  | true => exact .pure none
  | false => exact hexpression.bind fun e => .pure (some e)

theorem relabels_varDeclaration :
    Relabels g (Stmt.relabel g) (varDeclaration fuel) (varDeclaration fuel) := by
  have hend (name : Name) (initial : Option Expr) : Relabels g (Stmt.relabel g)
      (do
        let _ ← expect .semicolon .noVariableEnd
        return .var name initial)
      (do
        let _ ← expect .semicolon .noVariableEnd
        return .var (name.relabel g) (initial.map (Expr.relabel g))) :=
    (relabels_expect _ _).bind fun _ => .pure (Stmt.var name initial)
  refine (relabels_identifier _).bind fun name => (relabels_accept _).bind fun b => ?_
  cases b with
  | true =>
      have hsome : Relabels g (Option.map (Expr.relabel g)) (some <$> expression fuel)
          (some <$> expression fuel) := hexpression.map fun _ => rfl
      exact hsome.bind (hend name)
  | false => exact hend name none

theorem relabels_expressionStatement :
    Relabels g (Stmt.relabel g) (expressionStatement fuel) (expressionStatement fuel) :=
  hexpression.bind fun e => (relabels_expect _ _).bind fun _ => .pure (Stmt.expression e)

theorem relabels_forInitial : Relabels g (Option.map (Stmt.relabel g))
    (forInitial fuel) (forInitial fuel) := by
  have hother : Relabels g (Option.map (Stmt.relabel g))
      (do return some (← expressionStatement fuel)) (do return some (← expressionStatement fuel)) :=
    (relabels_expressionStatement hexpression).bind fun s => .pure (some s)
  refine relabels_peek.bind fun t => ?_
  obtain ⟨kind, lexeme, line⟩ := t
  cases kind with
  | mark m =>
      cases m with
      | semicolon => exact relabels_advance.bind fun _ => .pure none
      | _ => exact hother
  | keyword k =>
      cases k with
      | varWord =>
          exact relabels_advance.bind fun _ => (relabels_varDeclaration hexpression).bind fun s =>
            .pure (some s)
      | _ => exact hother
  | _ => exact hother

end Expressions

/-- With a given fuel, the readers of statements do the same, but for numbers and lines. -/
structure RelabelStmtReaders (g : Relabelling) (fuel : Nat) : Prop where
  declaration : Relabels g (Stmt.relabel g) (Reader.declaration fuel) (Reader.declaration fuel)
  methods : Relabels g (FunctionDecl.relabelAll g) (Reader.methods fuel) (Reader.methods fuel)
  function (routine : Routine) : Relabels g (FunctionDecl.relabel g)
    (Reader.function fuel routine) (Reader.function fuel routine)
  block : Relabels g (Stmt.relabelAll g) (Reader.block fuel) (Reader.block fuel)
  statement : Relabels g (Stmt.relabel g) (Reader.statement fuel) (Reader.statement fuel)

namespace RelabelStmtReaders

variable {fuel : Nat}

theorem declaration_succ (hnode : ∀ id, g.node (id + 1) = g.node id + 1)
    (ih : RelabelStmtReaders g fuel) :
    Relabels g (Stmt.relabel g) (Reader.declaration (fuel + 1))
      (Reader.declaration (fuel + 1)) := by
  refine relabels_peek.bind fun t => ?_
  obtain ⟨kind, lexeme, line⟩ := t
  cases kind with
  | keyword k =>
      cases k with
      | classWord =>
          exact relabels_advance.bind fun _ => (relabels_identifier _).bind fun name =>
            (relabels_superclass hnode).bind fun superclass => (relabels_expect _ _).bind fun _ =>
              ih.methods.bind fun methods => .pure (Stmt.classDef name superclass methods)
      | funWord =>
          exact relabels_advance.bind fun _ => (ih.function _).bind fun d =>
            .pure (Stmt.function d)
      | varWord =>
          exact relabels_advance.bind fun _ =>
            relabels_varDeclaration (relabelExprReaders hnode fuel).expression
      | _ => exact ih.statement
  | _ => exact ih.statement

theorem list_succ {item : Reader α} {items : Reader (List α)} {item' : Reader β}
    {items' : Reader (List β)} {value : α → β} {values : List α → List β} {fault : SyntaxFault}
    (hnil : values [] = []) (hcons : ∀ a as, values (a :: as) = value a :: values as)
    (hitem : Relabels g value item item') (hitems : Relabels g values items items') :
    Relabels g values
      (do
        if (← atEnd) || (← sees .rightBrace) then
          let _ ← expect .rightBrace fault
          return []
        let first ← item
        return first :: (← items))
      (do
        if (← atEnd) || (← sees .rightBrace) then
          let _ ← expect .rightBrace fault
          return []
        let first ← item'
        return first :: (← items')) := by
  refine relabels_atEnd.bind fun ended => (relabels_sees _).bind fun closed => ?_
  cases hlast : ended || closed with
  | true =>
      simp only [id, hlast, if_true]
      rw [← hnil]
      exact (relabels_expect _ _).bind fun _ => .pure []
  | false =>
      simp only [id, hlast, Bool.false_eq_true, if_false]
      refine hitem.bind fun a => hitems.bind fun as => ?_
      rw [← hcons]
      exact .pure (a :: as)

theorem function_succ (ih : RelabelStmtReaders g fuel) (routine : Routine) :
    Relabels g (FunctionDecl.relabel g) (Reader.function (fuel + 1) routine)
      (Reader.function (fuel + 1) routine) := by
  have hbody (name : Name) (names : List Name) : Relabels g (FunctionDecl.relabel g)
      (do
        let _ ← expect .rightParen .noParametersClosing
        let _ ← expect .leftBrace (.noBodyOpening routine)
        let body ← Reader.block fuel
        return ⟨name, names, body⟩)
      (do
        let _ ← expect .rightParen .noParametersClosing
        let _ ← expect .leftBrace (.noBodyOpening routine)
        let body ← Reader.block fuel
        return ⟨name.relabel g, names.map (Name.relabel g), body⟩) :=
    (relabels_expect _ _).bind fun _ => (relabels_expect _ _).bind fun _ =>
      ih.block.bind fun body => .pure (FunctionDecl.mk name names body)
  refine (relabels_identifier _).bind fun name => (relabels_expect _ _).bind fun _ =>
    (relabels_sees _).bind fun b => ?_
  cases b with
  | true => exact hbody name []
  | false => exact (relabels_parameters fuel 0).bind (hbody name)

theorem statement_succ (hnode : ∀ id, g.node (id + 1) = g.node id + 1)
    (ih : RelabelStmtReaders g fuel) :
    Relabels g (Stmt.relabel g) (Reader.statement (fuel + 1)) (Reader.statement (fuel + 1)) := by
  have hexpression := (relabelExprReaders hnode fuel).expression
  have hother := relabels_expressionStatement hexpression
  refine relabels_peek.bind fun t => ?_
  obtain ⟨kind, lexeme, line⟩ := t
  cases kind with
  | keyword k =>
      cases k with
      | forWord =>
          refine relabels_advance.bind fun _ => (relabels_expect _ _).bind fun _ =>
            (relabels_forInitial hexpression).bind fun initial =>
              (relabels_expressionUnless hexpression _).bind fun condition =>
                (relabels_expect _ _).bind fun _ =>
                  (relabels_expressionUnless hexpression _).bind fun step =>
                    (relabels_expect _ _).bind fun _ => ih.statement.bind fun body => ?_
          rw [← Stmt.relabel_forLoop]
          exact .pure _
      | ifWord =>
          refine relabels_advance.bind fun _ => (relabels_expect _ _).bind fun _ =>
            hexpression.bind fun condition => (relabels_expect _ _).bind fun _ =>
              ih.statement.bind fun thenBranch => relabels_peek.bind fun next => ?_
          obtain ⟨kind, lexeme, line⟩ := next
          have hwithout : Relabels g (Stmt.relabel g) (pure (.ifThen condition thenBranch))
              (pure (.ifThen (condition.relabel g) (thenBranch.relabel g))) :=
            .pure (Stmt.ifThen condition thenBranch)
          cases kind with
          | keyword k =>
              cases k with
              | elseWord =>
                  exact relabels_advance.bind fun _ => ih.statement.bind fun elseBranch =>
                    .pure (Stmt.ifElse condition thenBranch elseBranch)
              | _ => exact hwithout
          | _ => exact hwithout
      | printWord =>
          exact relabels_advance.bind fun _ => hexpression.bind fun value =>
            (relabels_expect _ _).bind fun _ => .pure (Stmt.print value)
      | returnWord =>
          exact relabels_advance.bind fun _ =>
            (relabels_expressionUnless hexpression _).bind fun value =>
              (relabels_expect _ _).bind fun _ => .pure (Stmt.giveBack line value)
      | whileWord =>
          exact relabels_advance.bind fun _ => (relabels_expect _ _).bind fun _ =>
            hexpression.bind fun condition => (relabels_expect _ _).bind fun _ =>
              ih.statement.bind fun body => .pure (Stmt.loop condition body)
      | _ => exact hother
  | mark m =>
      cases m with
      | leftBrace =>
          exact relabels_advance.bind fun _ => ih.block.bind fun body => .pure (Stmt.block body)
      | _ => exact hother
  | _ => exact hother

end RelabelStmtReaders

theorem relabelStmtReaders (hnode : ∀ id, g.node (id + 1) = g.node id + 1) (fuel : Nat) :
    RelabelStmtReaders g fuel := by
  induction fuel with
  | zero => constructor <;> intros <;> exact .outOfFuel
  | succ fuel ih =>
      exact {
        declaration := ih.declaration_succ hnode
        methods :=
          RelabelStmtReaders.list_succ rfl (fun _ _ => rfl) (ih.function .method) ih.methods
        function := ih.function_succ
        block := RelabelStmtReaders.list_succ rfl (fun _ _ => rfl) ih.declaration ih.block
        statement := ih.statement_succ hnode }

/-- A program that is read from other numbers and lines is the same one with these changed. -/
theorem relabels_program (hnode : ∀ id, g.node (id + 1) = g.node id + 1) (fuel : Nat) :
    Relabels g (Stmt.relabelAll g) (program fuel) (program fuel) := by
  induction fuel with
  | zero => exact .outOfFuel
  | succ fuel ih =>
      refine relabels_atEnd.bind fun b => ?_
      cases b with
      | true => exact .pure []
      | false =>
          exact (relabelStmtReaders hnode fuel).declaration.bind fun first => ih.bind fun rest =>
            .pure (first :: rest)

end Reader

section Renumbering

variable {node : NodeId → NodeId}

@[simp] theorem Token.relabel_renumber (t : Token) : t.relabel (.renumber node) = t := rfl

@[simp] theorem SyntaxError.relabel_renumber (e : SyntaxError) : e.relabel (.renumber node) = e :=
  rfl

theorem Cursor.ofTokens_renumber (tokens : List Token) (base : NodeId) :
    (ofTokens tokens base).relabel (.renumber node) = ofTokens tokens (node base) := by
  have hid : Token.relabel (.renumber node) = id := rfl
  unfold Cursor.relabel
  rw [hid, List.map_id]
  rfl

/-- Where the numbering of references begins matters for nothing but the numbers. -/
theorem readProgram_eq_renumber (tokens : List Token) (base : NodeId) :
    readProgram tokens base =
      ⟨(readProgram tokens 0).result.map (Stmt.relabelAll (.renumber (· + base))),
        (readProgram tokens 0).nextId + base⟩ := by
  have hprogram := (Reader.relabels_program (g := .renumber (· + base))
    (fun id => Nat.succ_add id base) (readingFuel tokens)).eq
    (s := Cursor.ofTokens tokens 0) trivial
  change Reader.program _ ((Cursor.ofTokens tokens 0).relabel _) = _ at hprogram
  rw [Cursor.ofTokens_renumber, Nat.zero_add] at hprogram
  unfold readProgram
  simp only [hprogram]
  cases Reader.program (readingFuel tokens) (Cursor.ofTokens tokens 0) with
  | ok _ _ | fault _ _ => rfl
  | exhausted =>
      simp only [Outcome.map, Except.map, Nat.zero_add]
      rfl

end Renumbering

end ScopedScript
