import ScopedScript.Proofs.Syntax.Acceptance
import ScopedScript.Proofs.Syntax.Sufficiency

/-!
# Faults of simple statements are isolated

Tokens up to their only semicolon, in which no braces open and only the first may begin a statement,
are read or refused without regard to what follows: no reader passes the semicolon unless the
statement ends there, and a fault, wherever it is, is followed by going on behind the semicolon. So
one such sequence of tokens after the other gives what each of them gives alone.
-/

namespace ScopedScript

/-- The same place with more tokens behind those that are left. -/
def Cursor.before (more : List Token) (eof : Token) (c : Cursor) : Cursor :=
  ⟨c.rest ++ more, eof, c.nextId⟩

/-- The same fault with more tokens behind those that are left. -/
def SyntaxError.before (more : List Token) (e : SyntaxError) : SyntaxError :=
  { e with remaining := e.remaining + more.length }

/-- A token that ends no statement, begins none with a keyword, and opens no block. -/
structure Token.IsPlain (t : Token) : Prop where
  noSemicolon : t.kind ≠ .mark .semicolon
  noBlock : t.kind ≠ .mark .leftBrace
  noStart : Cursor.startsStatement t = false

/-- Plain tokens are left, and then a semicolon. -/
structure Cursor.Plain (c : Cursor) : Prop where
  rest_eq : ∃ body semicolon, c.rest = body ++ [semicolon] ∧ (∀ t ∈ body, t.IsPlain) ∧
    semicolon.kind = .mark .semicolon
  eof_kind : c.eof.kind = .eof

/-- No token is left. -/
structure Cursor.Finished (c : Cursor) : Prop where
  rest_eq : c.rest = []
  eof_kind : c.eof.kind = .eof

section

variable {more : List Token} {eof : Token} {c : Cursor}

namespace Cursor.Plain

theorem hasNext (h : c.Plain) : c.HasNext := by
  obtain ⟨body, semicolon, hrest, _, _⟩ := h.rest_eq
  refine Cursor.hasNext_of_atEnd_eq_false ?_
  unfold Cursor.atEnd
  rw [hrest]
  cases body <;> rfl

theorem rest_cons (h : c.Plain) : ∃ t rest, c = ⟨t :: rest, c.eof, c.nextId⟩ ∧ c.peek = t := by
  have hrest : c.rest = c.peek :: c.advance.rest := h.hasNext
  exact ⟨c.peek, c.advance.rest, by rw [← hrest], rfl⟩

theorem peek_before (h : c.Plain) : (c.before more eof).peek = c.peek := by
  obtain ⟨t, rest, hc, _⟩ := h.rest_cons
  rw [hc]
  rfl

theorem advance_before (h : c.Plain) :
    (c.before more eof).advance = c.advance.before more eof := by
  obtain ⟨t, rest, hc, _⟩ := h.rest_cons
  rw [hc]
  rfl

theorem blame_before (h : c.Plain) (fault : SyntaxFault) :
    (c.before more eof).blame fault = (c.blame fault).before more := by
  unfold Cursor.blame SyntaxError.before
  rw [h.peek_before, Cursor.before, List.length_append]

/-- The next token is plain, or it is the semicolon, and nothing is left after it. -/
theorem plain_or_last (h : c.Plain) :
    c.peek.IsPlain ∧ c.advance.Plain ∨ c.peek.kind = .mark .semicolon ∧ c.advance.Finished := by
  obtain ⟨body, semicolon, hrest, hbody, hsemicolon⟩ := h.rest_eq
  cases body with
  | nil =>
      refine .inr ⟨?_, ?_, h.eof_kind⟩
      · rw [Cursor.peek, hrest]
        exact hsemicolon
      · rw [Cursor.advance, hrest]
        rfl
  | cons t body =>
      refine .inl ⟨?_, ⟨body, semicolon, ?_, ?_, hsemicolon⟩, h.eof_kind⟩
      · rw [Cursor.peek, hrest]
        exact hbody t List.mem_cons_self
      · rw [Cursor.advance, hrest]
        rfl
      · exact fun t' ht' => hbody t' (List.mem_cons_of_mem t ht')

theorem noBlock_noStart (h : c.Plain) :
    c.peek.kind ≠ .mark .leftBrace ∧ Cursor.startsStatement c.peek = false := by
  obtain ⟨hplain, _⟩ | ⟨hkind, _⟩ := h.plain_or_last
  · exact ⟨hplain.noBlock, hplain.noStart⟩
  · exact ⟨by simp [hkind], by simp [Cursor.startsStatement, hkind]⟩

theorem advance (h : c.Plain) (hne : c.peek.kind ≠ .mark .semicolon) : c.advance.Plain :=
  (h.plain_or_last.resolve_right fun hlast => hne hlast.1).2

theorem setNextId (h : c.Plain) (id : NodeId) : Cursor.Plain { c with nextId := id } :=
  ⟨h.rest_eq, h.eof_kind⟩

end Cursor.Plain

end

/-- How a reading before more tokens compares with one without them: in the same way, ending before
the same tokens, unless one of them runs out of fuel. A reading that ends well ends in a place with
the property `Q`, a fault is found before the semicolon. -/
inductive Alike {α : Type} (more : List Token) (eof : Token) (Q : Cursor → Prop) :
    Outcome SyntaxError Cursor α → Outcome SyntaxError Cursor α → Prop where
  | ok {a c} : Q c → Alike more eof Q (.ok a c) (.ok a (c.before more eof))
  | fault {e c} : c.Plain →
      Alike more eof Q (.fault e c) (.fault (e.before more) (c.before more eof))
  | exhausted {o} : Alike more eof Q .exhausted o
  | exhausted' {o} : Alike more eof Q o .exhausted

namespace Reader

variable {α β : Type} {more : List Token} {eof : Token} {Q P : Cursor → Prop} {c : Cursor}

theorem Alike.bind {m m' : Reader α} {f f' : α → Reader β}
    (h : Alike more eof Q (m c) (m' (c.before more eof)))
    (hf : ∀ a c, Q c → Alike more eof P (f a c) (f' a (c.before more eof))) :
    Alike more eof P ((m >>= f) c) ((m' >>= f') (c.before more eof)) := by
  rw [Run.bind_apply, Run.bind_apply]
  generalize m c = o at h
  generalize m' (c.before more eof) = o' at h
  cases h with
  | ok hQ => exact hf _ _ hQ
  | fault hplain => exact .fault hplain
  | exhausted => exact .exhausted
  | exhausted' => exact .exhausted'

/-- Two readers do alike from where plain tokens are left. -/
def ReadsAlike (more : List Token) (eof : Token) (Q : Cursor → Prop) (m m' : Reader α) : Prop :=
  ∀ c, c.Plain → Alike more eof Q (m c) (m' (c.before more eof))

/-- Two readers do alike from where plain tokens are left, and do not take the semicolon. -/
abbrev Parallel (more : List Token) (eof : Token) (m m' : Reader α) : Prop :=
  ReadsAlike more eof Cursor.Plain m m'

theorem ReadsAlike.bind {m m' : Reader α} {f f' : α → Reader β} (h : Parallel more eof m m')
    (hf : ∀ a, ReadsAlike more eof Q (f a) (f' a)) : ReadsAlike more eof Q (m >>= f) (m' >>= f') :=
  fun c hc => Alike.bind (h c hc) hf

theorem parallel_pure (a : α) : Parallel more eof (pure a) (pure a) := fun _ hc => .ok hc

theorem parallel_outOfFuel (m : Reader α) : Parallel more eof Run.outOfFuel m :=
  fun _ _ => .exhausted

theorem parallel_outOfFuel' (m : Reader α) : Parallel more eof m Run.outOfFuel :=
  fun _ _ => .exhausted'

theorem alike_blame (hc : c.Plain) (fault : SyntaxFault) :
    Alike more eof Q ((blame fault : Reader α) c) (blame fault (c.before more eof)) := by
  have hfault : (blame fault : Reader α) (c.before more eof) =
      .fault ((c.blame fault).before more) (c.before more eof) := by
    rw [← hc.blame_before]
    rfl
  rw [hfault]
  exact .fault hc

theorem parallel_freshId : Parallel more eof freshId freshId :=
  fun _ hc => .ok (hc.setNextId _)

theorem alike_peek_bind {f f' : Token → Reader β} (hc : c.Plain)
    (h : Alike more eof Q (f c.peek c) (f' c.peek (c.before more eof))) :
    Alike more eof Q ((peek >>= f) c) ((peek >>= f') (c.before more eof)) := by
  have hbefore : (c.before more eof).peek = c.peek := hc.peek_before
  have hpeek : peek (c.before more eof) = .ok c.peek (c.before more eof) := by
    rw [← hbefore]
    rfl
  rw [Run.bind_of_ok hpeek]
  exact h

theorem alike_advance_bind {f f' : Unit → Reader β} (hc : c.Plain)
    (hne : c.peek.kind ≠ .mark .semicolon)
    (h : ∀ c, c.Plain → Alike more eof Q (f () c) (f' () (c.before more eof))) :
    Alike more eof Q ((advance >>= f) c) ((advance >>= f') (c.before more eof)) := by
  have hadvance : advance (c.before more eof) = .ok () (c.advance.before more eof) := by
    rw [← hc.advance_before]
    rfl
  rw [Run.bind_of_ok hadvance]
  exact h c.advance (hc.advance hne)

theorem alike_sees_bind {m : Mark} {f f' : Bool → Reader β} (hc : c.Plain)
    (h : ∀ b, (b = true → c.peek.kind = .mark m) →
      Alike more eof Q (f b c) (f' b (c.before more eof))) :
    Alike more eof Q ((sees m >>= f) c) ((sees m >>= f') (c.before more eof)) := by
  by_cases hmark : c.peek.kind = .mark m
  · obtain ⟨t, rest, hcursor, hpeek⟩ := hc.rest_cons
    rw [hpeek] at hmark
    have hsees : sees m c = .ok true c := by
      rw [hcursor]
      exact sees_cons hmark
    have hsees' : sees m (c.before more eof) = .ok true (c.before more eof) := by
      rw [hcursor]
      exact sees_cons hmark
    rw [Run.bind_of_ok hsees, Run.bind_of_ok hsees']
    exact h true fun _ => hpeek ▸ hmark
  · rw [Run.bind_of_ok (sees_of_ne hmark),
      Run.bind_of_ok (sees_of_ne (hc.peek_before ▸ hmark))]
    exact h false fun hb => by cases hb

theorem parallel_accept {m : Mark} (hm : m ≠ .semicolon) :
    Parallel more eof (accept m) (accept m) := by
  intro c hc
  refine alike_sees_bind hc fun b hb => ?_
  cases b with
  | true =>
      refine alike_advance_bind hc ?_ (parallel_pure true)
      rw [hb rfl]
      exact fun h => hm (Kind.mark.inj h)
  | false => exact .ok hc

theorem parallel_expect {m : Mark} (hm : m ≠ .semicolon) (fault : SyntaxFault) :
    Parallel more eof (expect m fault) (expect m fault) := by
  intro c hc
  refine alike_sees_bind hc fun b hb => ?_
  cases b with
  | true =>
      refine alike_peek_bind hc (alike_advance_bind hc ?_ (parallel_pure _))
      rw [hb rfl]
      exact fun h => hm (Kind.mark.inj h)
  | false => exact alike_blame hc fault

theorem parallel_identifier (fault : SyntaxFault) :
    Parallel more eof (identifier fault) (identifier fault) := by
  intro c hc
  refine alike_peek_bind hc ?_
  cases hkind : c.peek.kind with
  | identifier =>
      exact alike_advance_bind hc (by rw [hkind]; exact Kind.noConfusion) (parallel_pure _)
  | _ => exact alike_blame hc fault

/-- With given amounts of fuel, the readers of expressions do alike. -/
structure ExprReadersParallel (more : List Token) (eof : Token) (fuel fuel' : Nat) : Prop where
  expression : Parallel more eof (Reader.expression fuel) (Reader.expression fuel')
  level (l : Level) : Parallel more eof (Reader.level fuel l) (Reader.level fuel' l)
  operand (l : Level) : Parallel more eof (Reader.operand fuel l) (Reader.operand fuel' l)
  operations (l : Level) (left : Expr) :
    Parallel more eof (Reader.operations fuel l left) (Reader.operations fuel' l left)
  unary : Parallel more eof (Reader.unary fuel) (Reader.unary fuel')
  calls (callee : Expr) : Parallel more eof (Reader.calls fuel callee) (Reader.calls fuel' callee)
  arguments (count : Nat) :
    Parallel more eof (Reader.arguments fuel count) (Reader.arguments fuel' count)
  primary : Parallel more eof (Reader.primary fuel) (Reader.primary fuel')

namespace ExprReadersParallel

variable {fuel fuel' : Nat}

theorem expression_succ (ih : ExprReadersParallel more eof fuel fuel') :
    Parallel more eof (Reader.expression (fuel + 1)) (Reader.expression (fuel' + 1)) := by
  refine (ih.level .or).bind fun target here hhere => ?_
  have hget : (Run.get : Reader Cursor) here = .ok here here := rfl
  have hget' : (Run.get : Reader Cursor) (here.before more eof) =
    .ok (here.before more eof) (here.before more eof) := rfl
  rw [Run.bind_of_ok hget, Run.bind_of_ok hget']
  refine Alike.bind (parallel_accept (by decide) here hhere) fun b c hc => ?_
  cases b with
  | true =>
      refine Alike.bind (ih.expression c hc) fun value c' hc' => ?_
      have hinvalid : Alike more eof Cursor.Plain
          ((Run.fail (here.blame .invalidTarget) : Reader Expr) c')
          (Run.fail ((here.before more eof).blame .invalidTarget) (c'.before more eof)) := by
        rw [hhere.blame_before]
        exact .fault hc'
      cases target with
      | name ref => exact .ok hc'
      | get object property => exact .ok hc'
      | _ => exact hinvalid
  | false => exact .ok hc

theorem operand_succ (ih : ExprReadersParallel more eof fuel fuel') (l : Level) :
    Parallel more eof (Reader.operand (fuel + 1) l) (Reader.operand (fuel' + 1) l) := by
  unfold Reader.operand
  cases l.tighter? with
  | some l => exact ih.level l
  | none => exact ih.unary

theorem operations_succ (ih : ExprReadersParallel more eof fuel fuel') (l : Level) (left : Expr) :
    Parallel more eof (Reader.operations (fuel + 1) l left)
      (Reader.operations (fuel' + 1) l left) := by
  intro c hc
  refine alike_peek_bind hc ?_
  cases hop : l.operator? c.peek.kind with
  | none => exact .ok hc
  | some op =>
      refine alike_advance_bind hc (fun hkind => ?_)
        ((ih.operand l).bind fun right => ih.operations l _)
      rw [hkind] at hop
      cases l <;> cases hop

theorem unary_succ (ih : ExprReadersParallel more eof fuel fuel') :
    Parallel more eof (Reader.unary (fuel + 1)) (Reader.unary (fuel' + 1)) := by
  intro c hc
  refine alike_peek_bind hc ?_
  cases hop : UnaryOp.ofKind? c.peek.kind with
  | some op =>
      refine alike_advance_bind hc (fun hkind => ?_) (ih.unary.bind fun _ => parallel_pure _)
      rw [hkind] at hop
      cases hop
  | none => exact (ih.primary.bind fun callee => ih.calls callee) c hc

theorem calls_succ (ih : ExprReadersParallel more eof fuel fuel') (callee : Expr) :
    Parallel more eof (Reader.calls (fuel + 1) callee) (Reader.calls (fuel' + 1) callee) := by
  have hclosing (values : List Expr) : Parallel more eof
      (do
        let closing ← expect .rightParen .noArgumentsClosing
        Reader.calls fuel (.call callee closing.line values))
      (do
        let closing ← expect .rightParen .noArgumentsClosing
        Reader.calls fuel' (.call callee closing.line values)) :=
    (parallel_expect (by decide) _).bind fun closing => ih.calls _
  refine (parallel_accept (by decide)).bind fun b => ?_
  cases b with
  | true =>
      intro c hc
      refine alike_sees_bind hc fun b _ => ?_
      cases b with
      | true => exact hclosing [] c hc
      | false => exact ((ih.arguments 0).bind hclosing) c hc
  | false =>
      refine (parallel_accept (by decide)).bind fun b => ?_
      cases b with
      | true => exact (parallel_identifier _).bind fun property => ih.calls _
      | false => exact parallel_pure _

theorem arguments_succ (ih : ExprReadersParallel more eof fuel fuel') (count : Nat) :
    Parallel more eof (Reader.arguments (fuel + 1) count)
      (Reader.arguments (fuel' + 1) count) := by
  unfold Reader.arguments
  split
  · exact fun c hc => alike_blame hc _
  · refine ih.expression.bind fun value => (parallel_accept (by decide)).bind fun b => ?_
    cases b with
    | true => exact (ih.arguments (count + 1)).bind fun _ => parallel_pure _
    | false => exact parallel_pure _

theorem primary_succ (ih : ExprReadersParallel more eof fuel fuel') :
    Parallel more eof (Reader.primary (fuel + 1)) (Reader.primary (fuel' + 1)) := by
  intro c hc
  refine alike_peek_bind hc ?_
  cases hkind : c.peek.kind with
  | keyword k =>
      have hne : c.peek.kind ≠ .mark .semicolon := by
        rw [hkind]
        exact Kind.noConfusion
      cases k with
      | falseWord | trueWord | nilWord => exact alike_advance_bind hc hne (parallel_pure _)
      | thisWord =>
          exact alike_advance_bind hc hne (parallel_freshId.bind fun _ => parallel_pure _)
      | superWord =>
          exact alike_advance_bind hc hne ((parallel_expect (by decide) _).bind fun _ =>
            (parallel_identifier _).bind fun _ => parallel_freshId.bind fun _ => parallel_pure _)
      | _ => exact alike_blame hc _
  | number _ | string _ =>
      exact alike_advance_bind hc (by rw [hkind]; exact Kind.noConfusion) (parallel_pure _)
  | identifier =>
      exact alike_advance_bind hc (by rw [hkind]; exact Kind.noConfusion)
        (parallel_freshId.bind fun _ => parallel_pure _)
  | mark m =>
      cases m with
      | leftParen =>
          exact alike_advance_bind hc (by rw [hkind]; simp) (ih.expression.bind fun _ =>
            (parallel_expect (by decide) _).bind fun _ => parallel_pure _)
      | _ => exact alike_blame hc _
  | eof => exact alike_blame hc _

end ExprReadersParallel

theorem exprReadersParallel (more : List Token) (eof : Token) (fuel fuel' : Nat) :
    ExprReadersParallel more eof fuel fuel' := by
  induction fuel generalizing fuel' with
  | zero => constructor <;> intros <;> exact parallel_outOfFuel _
  | succ fuel ih =>
      cases fuel' with
      | zero => constructor <;> intros <;> exact parallel_outOfFuel' _
      | succ fuel' =>
          have ih := ih fuel'
          exact {
            expression := ih.expression_succ
            level := fun l => (ih.operand l).bind fun left => ih.operations l left
            operand := ih.operand_succ
            operations := ih.operations_succ
            unary := ih.unary_succ
            calls := ih.calls_succ
            arguments := ih.arguments_succ
            primary := ih.primary_succ }

theorem parallel_expression (fuel fuel' : Nat) :
    Parallel more eof (expression fuel) (expression fuel') :=
  (exprReadersParallel more eof fuel fuel').expression

theorem parallel_parameters (fuel fuel' count : Nat) :
    Parallel more eof (parameters fuel count) (parameters fuel' count) := by
  induction fuel generalizing fuel' count with
  | zero => exact parallel_outOfFuel _
  | succ fuel ih =>
      cases fuel' with
      | zero => exact parallel_outOfFuel' _
      | succ fuel' =>
          unfold parameters
          split
          · exact fun c hc => alike_blame hc _
          · refine (parallel_identifier _).bind fun name =>
              (parallel_accept (by decide)).bind fun b => ?_
            cases b with
            | true => exact (ih fuel' _).bind fun _ => parallel_pure _
            | false => exact parallel_pure _

theorem parallel_expressionUnless (fuel fuel' : Nat) (m : Mark) :
    Parallel more eof (expressionUnless fuel m) (expressionUnless fuel' m) := by
  refine fun c hc => alike_sees_bind hc fun b _ => ?_
  cases b with
  | true => exact .ok hc
  | false => exact ((parallel_expression fuel fuel').bind fun _ => parallel_pure _) c hc

/-- Two readers do alike from where plain tokens are left, and take them and the semicolon. -/
abbrev TakesAll (more : List Token) (eof : Token) (m m' : Reader α) : Prop :=
  ReadsAlike more eof Cursor.Finished m m'

theorem takesAll_semicolon_bind (fault : SyntaxFault) (a : α) : TakesAll more eof
    (do
      let _ ← expect .semicolon fault
      return a)
    (do
      let _ ← expect .semicolon fault
      return a) := by
  intro c hc
  refine Alike.bind (Q := Cursor.Finished) ?_ fun _ _ hfinished => .ok hfinished
  refine alike_sees_bind hc fun b hb => ?_
  cases b with
  | true =>
      refine alike_peek_bind hc ?_
      have hadvance : advance (c.before more eof) = .ok () (c.advance.before more eof) := by
        rw [← hc.advance_before]
        rfl
      rw [Run.bind_of_ok hadvance]
      obtain ⟨hplain, _⟩ | ⟨_, hfinished⟩ := hc.plain_or_last
      · exact (hplain.noSemicolon (hb rfl)).elim
      · exact .ok hfinished
  | false => exact alike_blame hc fault

theorem takesAll_varDeclaration (fuel fuel' : Nat) :
    TakesAll more eof (varDeclaration fuel) (varDeclaration fuel') := by
  refine (parallel_identifier _).bind fun name => (parallel_accept (by decide)).bind fun b => ?_
  cases b with
  | true =>
      simp only [if_true, map_eq_pure_bind, bind_assoc, pure_bind]
      exact (parallel_expression fuel fuel').bind fun _ => takesAll_semicolon_bind _ _
  | false => exact takesAll_semicolon_bind _ _

theorem takesAll_expressionStatement (fuel fuel' : Nat) :
    TakesAll more eof (expressionStatement fuel) (expressionStatement fuel') :=
  (parallel_expression fuel fuel').bind fun _ => takesAll_semicolon_bind _ _

section FirstToken

variable {fuel fuel' : Nat}

/-- A statement that begins with no keyword of its own, and no brace, is an expression statement. -/
theorem statement_of_noStart (hblock : c.peek.kind ≠ .mark .leftBrace)
    (hstart : Cursor.startsStatement c.peek = false) :
    statement (fuel + 1) c = expressionStatement fuel c := by
  have hpeek : peek c = .ok c.peek c := rfl
  unfold statement
  rw [Run.bind_of_ok hpeek]
  unfold Cursor.startsStatement at hstart
  cases hkind : c.peek.kind with
  | mark m =>
      cases m with
      | leftBrace => exact (hblock hkind).elim
      | _ => rfl
  | keyword k =>
      cases k with
      | forWord | ifWord | whileWord | printWord | returnWord => simp [hkind] at hstart
      | _ => rfl
  | _ => rfl

/-- A declaration that begins with no keyword of its own is a statement. -/
theorem declaration_of_noStart (hstart : Cursor.startsStatement c.peek = false) :
    declaration (fuel + 1) c = statement fuel c := by
  have hpeek : peek c = .ok c.peek c := rfl
  unfold declaration
  rw [Run.bind_of_ok hpeek]
  unfold Cursor.startsStatement at hstart
  cases hkind : c.peek.kind with
  | keyword k =>
      cases k with
      | classWord | funWord | varWord => simp [hkind] at hstart
      | _ => rfl
  | _ => rfl

end FirstToken

theorem takesAll_statement (fuel fuel' : Nat) :
    TakesAll more eof (statement fuel) (statement fuel') := by
  intro c hc
  cases fuel with
  | zero => exact .exhausted
  | succ fuel =>
      cases fuel' with
      | zero => exact .exhausted'
      | succ fuel' =>
          obtain ⟨hblock, hstart⟩ := hc.noBlock_noStart
          rw [statement_of_noStart hblock hstart,
            statement_of_noStart (hc.peek_before ▸ hblock) (hc.peek_before ▸ hstart)]
          exact takesAll_expressionStatement fuel fuel' c hc

theorem parallel_superclass : Parallel more eof superclass superclass := by
  refine (parallel_accept (by decide)).bind fun b => ?_
  cases b with
  | true =>
      exact (parallel_identifier _).bind fun _ => parallel_freshId.bind fun _ => parallel_pure _
  | false => exact parallel_pure _

/-- No block opens where plain tokens are left. -/
theorem readsAlike_leftBrace_bind {f f' : Token → Reader β} (fault : SyntaxFault) :
    ReadsAlike more eof Q (expect .leftBrace fault >>= f) (expect .leftBrace fault >>= f') := by
  intro c hc
  refine Alike.bind (Q := fun _ => False) ?_ fun _ _ h => h.elim
  refine alike_sees_bind hc fun b hb => ?_
  cases b with
  | true => exact (hc.noBlock_noStart.1 (hb rfl)).elim
  | false => exact alike_blame hc fault

theorem takesAll_function (fuel fuel' : Nat) (routine : Routine) :
    TakesAll more eof (function fuel routine) (function fuel' routine) := by
  cases fuel with
  | zero => exact fun _ _ => .exhausted
  | succ fuel =>
      cases fuel' with
      | zero => exact fun _ _ => .exhausted'
      | succ fuel' =>
          refine (parallel_identifier _).bind fun name =>
            (parallel_expect (by decide) _).bind fun _ c hc => alike_sees_bind hc fun b _ => ?_
          cases b with
          | true =>
              exact ((parallel_expect (by decide) _).bind fun _ =>
                readsAlike_leftBrace_bind _) c hc
          | false =>
              exact ((parallel_parameters fuel fuel' 0).bind fun _ =>
                (parallel_expect (by decide) _).bind fun _ => readsAlike_leftBrace_bind _) c hc

section Starting

variable {fuel fuel' : Nat} {t : Token} {rest : List Token} {eof' : Token} {i : NodeId}

/-- A statement that begins with a keyword other than `for`, before plain tokens. -/
theorem alike_statement_of_starts (hmore : (more.headD eof).kind ≠ .keyword .elseWord)
    (hstart : Cursor.startsStatement t = true) (hfor : t.kind ≠ .keyword .forWord)
    (hdeclaration : t.kind ∉ ([.classWord, .funWord, .varWord] : List Keyword).map .keyword)
    (hrest : Cursor.Plain ⟨rest, eof', i⟩) :
    Alike more eof Cursor.Finished (statement (fuel + 1) ⟨t :: rest, eof', i⟩)
      (statement (fuel' + 1) (Cursor.before more eof ⟨t :: rest, eof', i⟩)) := by
  have hcondition {f f' : Expr → Reader Stmt} {opening closing : SyntaxFault}
      (h : ∀ condition, TakesAll more eof (f condition) (f' condition)) : TakesAll more eof
        (do
          let _ ← expect .leftParen opening
          let condition ← expression fuel
          let _ ← expect .rightParen closing
          f condition)
        (do
          let _ ← expect .leftParen opening
          let condition ← expression fuel'
          let _ ← expect .rightParen closing
          f' condition) :=
    (parallel_expect (by decide) _).bind fun _ => (parallel_expression fuel fuel').bind
      fun condition => (parallel_expect (by decide) _).bind fun _ => h condition
  have hpeek : peek ⟨t :: rest, eof', i⟩ = .ok t ⟨t :: rest, eof', i⟩ := rfl
  have hpeek' : peek (Cursor.before more eof ⟨t :: rest, eof', i⟩) =
    .ok t (Cursor.before more eof ⟨t :: rest, eof', i⟩) := rfl
  unfold statement
  rw [Run.bind_of_ok hpeek, Run.bind_of_ok hpeek']
  unfold Cursor.startsStatement at hstart
  cases hkind : t.kind with
  | keyword k =>
      cases k with
      | forWord => exact (hfor hkind).elim
      | classWord | funWord | varWord => simp [hkind] at hdeclaration
      | ifWord =>
          refine hcondition (fun condition c hc => ?_) _ hrest
          refine Alike.bind (takesAll_statement fuel fuel' c hc) fun thenBranch c hc => ?_
          have hnext : peek c = .ok c.eof c := by
            show Outcome.ok c.peek c = _
            rw [Cursor.peek, hc.rest_eq]
            rfl
          have hnext' : peek (c.before more eof) = .ok (more.headD eof) (c.before more eof) := by
            show Outcome.ok (c.before more eof).peek _ = _
            rw [Cursor.peek, Cursor.before, hc.rest_eq]
            rfl
          rw [Run.bind_of_ok hnext, Run.bind_of_ok hnext', hc.eof_kind]
          cases hnextKind : (more.headD eof).kind with
          | keyword k =>
              cases k with
              | elseWord => exact (hmore hnextKind).elim
              | _ => exact .ok hc
          | _ => exact .ok hc
      | whileWord =>
          refine hcondition (fun condition c hc => ?_) _ hrest
          exact Alike.bind (takesAll_statement fuel fuel' c hc) fun body c hc => .ok hc
      | printWord =>
          exact ((parallel_expression fuel fuel').bind fun _ => takesAll_semicolon_bind _ _) _ hrest
      | returnWord =>
          exact ((parallel_expressionUnless fuel fuel' _).bind
            fun _ => takesAll_semicolon_bind _ _) _ hrest
      | _ => simp [hkind] at hstart
  | _ => simp [hkind] at hstart

/-- A declaration that begins with a keyword other than `for`, before plain tokens. -/
theorem alike_declaration_of_starts (hmore : (more.headD eof).kind ≠ .keyword .elseWord)
    (hstart : Cursor.startsStatement t = true) (hfor : t.kind ≠ .keyword .forWord)
    (hrest : Cursor.Plain ⟨rest, eof', i⟩) :
    Alike more eof Cursor.Finished (declaration (fuel + 1) ⟨t :: rest, eof', i⟩)
      (declaration (fuel' + 1) (Cursor.before more eof ⟨t :: rest, eof', i⟩)) := by
  have hpeek : peek ⟨t :: rest, eof', i⟩ = .ok t ⟨t :: rest, eof', i⟩ := rfl
  have hpeek' : peek (Cursor.before more eof ⟨t :: rest, eof', i⟩) =
    .ok t (Cursor.before more eof ⟨t :: rest, eof', i⟩) := rfl
  have hstatement
      (h : t.kind ∉ ([.classWord, .funWord, .varWord] : List Keyword).map .keyword) :
      Alike more eof Cursor.Finished (statement fuel ⟨t :: rest, eof', i⟩)
        (statement fuel' (Cursor.before more eof ⟨t :: rest, eof', i⟩)) := by
    cases fuel with
    | zero => exact .exhausted
    | succ fuel =>
        cases fuel' with
        | zero => exact .exhausted'
        | succ fuel' => exact alike_statement_of_starts hmore hstart hfor h hrest
  unfold declaration
  rw [Run.bind_of_ok hpeek, Run.bind_of_ok hpeek']
  cases hkind : t.kind with
  | keyword k =>
      cases k with
      | classWord =>
          exact ((parallel_identifier _).bind fun _ => parallel_superclass.bind fun _ =>
            readsAlike_leftBrace_bind _) _ hrest
      | funWord =>
          have hfunction : TakesAll more eof
              (do return Stmt.function (← function fuel .function))
              (do return Stmt.function (← function fuel' .function)) :=
            fun c hc => Alike.bind (takesAll_function fuel fuel' _ c hc) fun _ _ hc => .ok hc
          exact hfunction _ hrest
      | varWord => exact takesAll_varDeclaration fuel fuel' _ hrest
      | _ => exact hstatement (by simp [hkind])
  | _ => exact hstatement (by simp [hkind])

end Starting

end Reader

/-- Tokens that end with their only semicolon, hold no end of the text, no brace, no `for` and no
`else`, and of which only the first may begin a declaration or a statement with a keyword. -/
structure IsSimple (w : List Token) : Prop where
  ends : ∃ body semicolon, w = body ++ [semicolon] ∧ semicolon.kind = .mark .semicolon ∧
    ∀ t ∈ body, t.kind ≠ .mark .semicolon
  kinds (t : Token) : t ∈ w → t.kind ∉ [.eof, .mark .leftBrace, .mark .rightBrace,
    .keyword .forWord, .keyword .elseWord]
  starts (t : Token) : t ∈ w.tail → t.kind ∉ ([.classWord, .funWord, .varWord, .ifWord, .whileWord,
    .printWord, .returnWord] : List Keyword).map .keyword

theorem IsSimple.startsStatement_eq_false {w : List Token} (h : IsSimple w) {t : Token}
    (ht : t ∈ w.tail) : Cursor.startsStatement t = false := by
  have hkind := h.starts t ht
  have hfor := h.kinds t (List.mem_of_mem_tail ht)
  unfold Cursor.startsStatement
  cases hk : t.kind with
  | keyword k =>
      rw [hk] at hkind hfor
      cases k <;> simp at hkind hfor ⊢
  | _ => rfl

/-- Simple tokens are plain, or they are after a keyword that begins a statement. -/
theorem IsSimple.plain_or_starts {w : List Token} (h : IsSimple w) {eof : Token} {i : NodeId}
    (heof : eof.kind = .eof) : Cursor.Plain ⟨w, eof, i⟩ ∨ ∃ t rest, w = t :: rest ∧
      Cursor.startsStatement t = true ∧ t.kind ≠ .keyword .forWord ∧
      Cursor.Plain ⟨rest, eof, i⟩ := by
  obtain ⟨body, semicolon, hw, hsemicolon, hbody⟩ := h.ends
  have hplain : ∀ t ∈ body, Cursor.startsStatement t = false → t.IsPlain := fun t ht hstart =>
    ⟨hbody t ht, fun hbrace => h.kinds t (by simp [hw, ht]) (by simp [hbrace]), hstart⟩
  cases body with
  | nil => exact .inl ⟨⟨[], semicolon, hw, by simp, hsemicolon⟩, heof⟩
  | cons t body =>
      have htail : ∀ t' ∈ body, t'.IsPlain := fun t' ht' =>
        hplain t' (List.mem_cons_of_mem t ht')
          (h.startsStatement_eq_false (by simp [hw, ht']))
      cases hstart : Cursor.startsStatement t with
      | true =>
          refine .inr ⟨t, body ++ [semicolon], hw, hstart, ?_, ⟨body, semicolon, rfl, htail,
            hsemicolon⟩, heof⟩
          exact fun hfor => h.kinds t (by simp [hw]) (by simp [hfor])
      | false =>
          refine .inl ⟨⟨t :: body, semicolon, hw, fun t' ht' => ?_, hsemicolon⟩, heof⟩
          rcases List.mem_cons.mp ht' with rfl | ht'
          · exact hplain t' List.mem_cons_self hstart
          · exact htail t' ht'

section Reading

variable {more : List Token} {eof : Token} {c : Cursor} {w : List Token} {i : NodeId}

theorem Cursor.fromBoundary_semicolon {t : Token} (ht : t.kind = .mark .semicolon)
    (tokens : List Token) : Cursor.fromBoundary t tokens = tokens := by
  cases tokens with
  | nil => rfl
  | cons t' rest =>
      rw [Cursor.fromBoundary, Token.isMark_iff.mpr ht]
      rfl

theorem Cursor.fromBoundary_plain {t semicolon : Token} {body : List Token}
    (ht : t.kind ≠ .mark .semicolon) (hbody : ∀ t ∈ body, t.IsPlain)
    (hsemicolon : semicolon.kind = .mark .semicolon) (more : List Token) :
    Cursor.fromBoundary t (body ++ semicolon :: more) = more := by
  have hnot {t : Token} (ht : t.kind ≠ .mark .semicolon) : t.isMark .semicolon = false := by
    rw [Bool.eq_false_iff]
    exact fun hmark => ht (Token.isMark_iff.mp hmark)
  induction body generalizing t with
  | nil =>
      have hstart : Cursor.startsStatement semicolon = false := by
        simp [Cursor.startsStatement, hsemicolon]
      rw [List.nil_append, Cursor.fromBoundary, hnot ht, hstart]
      exact fromBoundary_semicolon hsemicolon more
  | cons t' body ih =>
      have ht' := hbody t' List.mem_cons_self
      rw [List.cons_append, Cursor.fromBoundary, hnot ht, ht'.noStart]
      exact ih ht'.noSemicolon fun t ht => hbody t (List.mem_cons_of_mem t' ht)

/-- From plain tokens on, reading goes on behind the semicolon. -/
theorem Cursor.Plain.synchronize_before (h : c.Plain) (more : List Token) (eof : Token) :
    (c.before more eof).synchronize = ⟨more, eof, c.nextId⟩ := by
  obtain ⟨body, semicolon, hrest, hbody, hsemicolon⟩ := h.rest_eq
  unfold Cursor.synchronize Cursor.before
  rw [hrest, List.append_assoc]
  cases body with
  | nil =>
      simp only [List.nil_append, List.singleton_append,
        Cursor.fromBoundary_semicolon hsemicolon]
  | cons t body =>
      have hboundary := Cursor.fromBoundary_plain (hbody t List.mem_cons_self).noSemicolon
        (fun t' ht' => hbody t' (List.mem_cons_of_mem t ht')) hsemicolon more
      simp only [List.cons_append, List.nil_append, hboundary]

theorem Cursor.Plain.synchronize (h : c.Plain) : c.synchronize = ⟨[], c.eof, c.nextId⟩ := by
  have hbefore : c.before [] c.eof = c := by
    unfold Cursor.before
    rw [List.append_nil]
  rw [← h.synchronize_before [] c.eof, hbefore]

/-- A declaration of simple tokens is read alone as it is before more tokens. -/
theorem IsSimple.alike_declaration (h : IsSimple w) {eof' : Token} (heof : eof'.kind = .eof)
    (hmore : (more.headD eof).kind ≠ .keyword .elseWord) (fuel fuel' : Nat) :
    Alike more eof Cursor.Finished (Reader.declaration fuel ⟨w, eof', i⟩)
      (Reader.declaration fuel' (Cursor.before more eof ⟨w, eof', i⟩)) := by
  cases fuel with
  | zero => exact .exhausted
  | succ fuel =>
      cases fuel' with
      | zero => exact .exhausted'
      | succ fuel' =>
          obtain hplain | ⟨t, rest, rfl, hstart, hfor, hrest⟩ := h.plain_or_starts (i := i) heof
          · obtain ⟨_, hstart⟩ := hplain.noBlock_noStart
            rw [Reader.declaration_of_noStart hstart,
              Reader.declaration_of_noStart (hplain.peek_before ▸ hstart)]
            exact Reader.takesAll_statement fuel fuel' _ hplain
          · exact Reader.alike_declaration_of_starts hmore hstart hfor hrest

/-- What is read from simple tokens, alone and before more tokens: the same declaration, or the same
fault before the semicolon. -/
theorem IsSimple.declaration_cases (h : IsSimple w) {eof' : Token} (heof : eof.kind = .eof)
    (heof' : eof'.kind = .eof) (hmore : (more.headD eof).kind ≠ .keyword .elseWord)
    {fuel fuel' : Nat} (hfuel : 16 * w.length + 18 ≤ fuel)
    (hfuel' : 16 * (w ++ more).length + 18 ≤ fuel') :
    (∃ s c, c.Finished ∧ Reader.declaration fuel ⟨w, eof', i⟩ = .ok s c ∧
      Reader.declaration fuel' ⟨w ++ more, eof, i⟩ = .ok s ⟨more, eof, c.nextId⟩) ∨
    ∃ e c, c.Plain ∧ Reader.declaration fuel ⟨w, eof', i⟩ = .fault e c ∧
      Reader.declaration fuel' ⟨w ++ more, eof, i⟩ =
        .fault (e.before more) (c.before more eof) := by
  have hfinishes := (Reader.stmtReadersFinish fuel).declaration (c := ⟨w, eof', i⟩) heof' hfuel
  have hfinishes' := (Reader.stmtReadersFinish fuel').declaration (c := ⟨w ++ more, eof, i⟩) heof
    hfuel'
  have halike := h.alike_declaration (i := i) heof' hmore fuel fuel'
  have hne := hfinishes.ne_exhausted
  have hne' := hfinishes'.ne_exhausted
  unfold Cursor.before at halike
  generalize Reader.declaration fuel ⟨w, eof', i⟩ = o at halike hne ⊢
  generalize Reader.declaration fuel' ⟨w ++ more, eof, i⟩ = o' at halike hne' ⊢
  cases halike with
  | @ok s c hc =>
      refine .inl ⟨s, c, hc, rfl, ?_⟩
      rw [Cursor.before, hc.rest_eq]
      rfl
  | @fault e c hc => exact .inr ⟨e, c, hc, rfl, rfl⟩
  | exhausted => exact (hne rfl).elim
  | exhausted' => exact (hne' rfl).elim

/-- Simple tokens give one declaration or one fault, the same alone as before more tokens, and
reading past faults goes on behind them. -/
theorem IsSimple.exists_step (h : IsSimple w) {eof' : Token} (heof : eof.kind = .eof)
    (heof' : eof'.kind = .eof) (hmore : (more.headD eof).kind ≠ .keyword .elseWord)
    {fuel : Nat} (hfuel : 16 * (w ++ more).length + 18 ≤ fuel) :
    ∃ d j, readPastFaults (w ++ [eof']) i = ⟨[d], j⟩ ∧
      Reader.recoveringProgram (fuel + 1) ⟨w ++ more, eof, i⟩ =
        (List.cons (d.mapError (SyntaxError.before more)) <$> Reader.recoveringProgram fuel)
          ⟨more, eof, j⟩ := by
  have hsome : ∀ more eof', (Cursor.mk (w ++ more) eof' i).atEnd = false := fun more eof' => by
    obtain ⟨body, semicolon, rfl, _⟩ := h.ends
    simp [Cursor.atEnd]
  have hstart : Cursor.ofTokens (w ++ [eof']) i = ⟨w, eof', i⟩ :=
    Cursor.ofTokens_append (fun t ht hkind => h.kinds t ht (by simp [hkind])) heof'
  have hread {d : Except SyntaxError Stmt} {c : Cursor}
      (h : Reader.recoveringProgram (readingFuel (w ++ [eof'])) ⟨w, eof', i⟩ = .ok [d] c) :
      readPastFaults (w ++ [eof']) i = ⟨[d], c.nextId⟩ := by
    unfold readPastFaults
    rw [hstart]
    simp only [h]
  obtain ⟨alone, halone⟩ : ∃ n, readingFuel (w ++ [eof']) = n + 2 :=
    Nat.exists_eq_add_of_le' (by simp only [readingFuel, List.length_append]; omega)
  have hfuelAlone : 16 * w.length + 18 ≤ alone + 1 := by
    simp only [readingFuel, List.length_append, List.length_singleton] at halone
    omega
  have hsomeAlone : (Cursor.mk w eof' i).atEnd = false := by
    simpa only [List.append_nil] using hsome [] eof'
  rw [halone, Reader.recoveringProgram_succ, hsomeAlone] at hread
  rw [Reader.recoveringProgram_succ, hsome]
  obtain ⟨s, c, hc, hfirst, hfirst'⟩ | ⟨e, c, hc, hfirst, hfirst'⟩ :=
    h.declaration_cases (i := i) heof heof' hmore hfuelAlone hfuel
  · have hend : Reader.recoveringProgram (alone + 1) c = .ok [] c := by
      rw [Reader.recoveringProgram_succ, Cursor.atEnd, hc.rest_eq]
      rfl
    rw [hfirst] at hread
    rw [hfirst']
    exact ⟨.ok s, c.nextId, hread (Run.map_eq_ok.mpr ⟨[], hend, rfl⟩), rfl⟩
  · have hend : Reader.recoveringProgram (alone + 1) c.synchronize = .ok [] c.synchronize := by
      rw [hc.synchronize]
      rfl
    have hnextId : c.synchronize.nextId = c.nextId := by rw [hc.synchronize]
    rw [hfirst] at hread
    rw [hfirst']
    refine ⟨.error e, c.nextId, ?_, ?_⟩
    · rw [← hnextId]
      exact hread (Run.map_eq_ok.mpr ⟨[], hend, rfl⟩)
    · rw [← hc.synchronize_before more eof]
      rfl

end Reading

/-- What some sequences of tokens give one by one, each of them followed by the end of the text and
with the numbers that those before it left. The tokens of the later ones count as left behind a
fault of an earlier one. -/
def readApart (eof : Token) : List (List Token) → NodeId →
    Parsed (List (Except SyntaxError Stmt))
  | [], base => ⟨[], base⟩
  | w :: rest, base =>
    let first := readPastFaults (w ++ [eof]) base
    let others := readApart eof rest first.nextId
    ⟨first.result.map (Except.mapError (SyntaxError.before rest.flatten)) ++ others.result,
      others.nextId⟩

section

variable {eof eof' : Token} {segments : List (List Token)}

theorem IsSimple.head_flatten_ne_else (h : ∀ w ∈ segments, IsSimple w) (heof : eof.kind = .eof) :
    (segments.flatten.headD eof).kind ≠ .keyword .elseWord := by
  cases hflatten : segments.flatten with
  | nil =>
      rw [List.headD_nil, heof]
      exact Kind.noConfusion
  | cons t rest =>
      have ht : t ∈ segments.flatten := hflatten ▸ List.mem_cons_self
      obtain ⟨w, hw, ht⟩ := List.mem_flatten.mp ht
      exact fun helse => (h w hw).kinds t ht (by simp [show t.kind = _ from helse])

theorem IsSimple.recoveringProgram_flatten (h : ∀ w ∈ segments, IsSimple w)
    (heof : eof.kind = .eof) (heof' : eof'.kind = .eof) (fuel : Nat) (base : NodeId)
    (hfuel : 16 * segments.flatten.length + 19 ≤ fuel) :
    Reader.recoveringProgram fuel ⟨segments.flatten, eof, base⟩ =
      .ok (readApart eof' segments base).result
        ⟨[], eof, (readApart eof' segments base).nextId⟩ := by
  induction segments generalizing fuel base with
  | nil =>
      obtain ⟨fuel, rfl⟩ := Nat.exists_eq_add_of_le' (Nat.le_of_add_left_le hfuel)
      rfl
  | cons w rest ih =>
      obtain ⟨hw, hrest⟩ := List.forall_mem_cons.mp h
      obtain ⟨fuel, rfl⟩ : ∃ n, fuel = n + 1 := Nat.exists_eq_add_of_le' (by omega)
      rw [List.flatten_cons] at hfuel ⊢
      obtain ⟨d, j, hread, hstep⟩ := hw.exists_step (i := base) heof heof'
        (IsSimple.head_flatten_ne_else hrest heof) (Nat.le_of_succ_le_succ hfuel)
      have hpos : 0 < w.length := by
        obtain ⟨body, semicolon, rfl, _⟩ := hw.ends
        simp
      have hothers := ih hrest fuel j (by
        rw [List.length_append] at hfuel
        omega)
      rw [hstep, readApart, hread]
      exact Run.map_eq_ok.mpr ⟨_, hothers, rfl⟩

/-- Simple sequences of tokens one after the other give what each of them gives alone, in order, and
each of them gives one declaration or one fault. -/
theorem readPastFaults_flatten (segments : List (List Token)) (h : ∀ w ∈ segments, IsSimple w)
    (eof eof' : Token) (heof : eof.kind = .eof) (heof' : eof'.kind = .eof) (base : NodeId) :
    readPastFaults (segments.flatten ++ [eof]) base = readApart eof' segments base ∧
    ∀ w ∈ segments, ∀ i, (∃ s, (readPastFaults (w ++ [eof']) i).result = [.ok s]) ∨
      ∃ e, (readPastFaults (w ++ [eof']) i).result = [.error e] := by
  constructor
  · have hstart : Cursor.ofTokens (segments.flatten ++ [eof]) base =
        ⟨segments.flatten, eof, base⟩ := by
      refine Cursor.ofTokens_append (fun t ht hkind => ?_) heof
      obtain ⟨w, hw, ht⟩ := List.mem_flatten.mp ht
      exact (h w hw).kinds t ht (by simp [hkind])
    have hread := IsSimple.recoveringProgram_flatten h heof heof'
      (readingFuel (segments.flatten ++ [eof])) base (by
        simp only [readingFuel, List.length_append, List.length_singleton]
        omega)
    unfold readPastFaults
    rw [hstart]
    simp only [hread]
  · intro w hw i
    have hmore : (([] : List Token).headD eof').kind ≠ .keyword .elseWord := by simp [heof']
    obtain ⟨d, j, hread, _⟩ := (h w hw).exists_step (i := i) heof' heof' hmore (Nat.le_refl _)
    rw [hread]
    cases d with
    | ok s => exact .inl ⟨s, rfl⟩
    | error e => exact .inr ⟨e, rfl⟩

/-- For example, an assignment to a constant, for which the equals sign is blamed, and a statement. -/
theorem readPastFaults_flatten_of_invalidTarget :
    let w : List Token := [⟨.keyword .nilWord, "nil", 1⟩, ⟨.mark .equal, "=", 1⟩, ⟨.identifier, "x", 1⟩,
      ⟨.mark .semicolon, ";", 1⟩]
    let v : List Token := [⟨.keyword .printWord, "print", 2⟩, ⟨.identifier, "x", 2⟩,
      ⟨.mark .semicolon, ";", 2⟩]
    (∀ u ∈ [w, v], IsSimple u) ∧
    readPastFaults ([w, v].flatten ++ [⟨.eof, "", 2⟩]) 5 = readApart ⟨.eof, "", 3⟩ [w, v] 5 ∧
    (readApart ⟨.eof, "", 3⟩ [w, v] 5).result =
      [.error ⟨.invalidTarget, ⟨.mark .equal, "=", 1⟩, 6⟩, .ok (.print (.name ⟨6, ⟨"x", 2⟩⟩))] := by
  intro w v
  have hw : IsSimple w :=
    ⟨⟨w.take 3, ⟨.mark .semicolon, ";", 1⟩, rfl, rfl, by simp [w]⟩, by simp [w], by simp [w]⟩
  have hv : IsSimple v :=
    ⟨⟨v.take 2, ⟨.mark .semicolon, ";", 2⟩, rfl, rfl, by simp [v]⟩, by simp [v], by simp [v]⟩
  have hall : ∀ u ∈ [w, v], IsSimple u := List.forall_mem_cons.mpr ⟨hw, by simpa using hv⟩
  have hread := (readPastFaults_flatten [w, v] hall ⟨.eof, "", 2⟩ ⟨.eof, "", 3⟩ rfl rfl 5).1
  refine ⟨hall, hread, ?_⟩
  rw [← hread]
  rfl

end

end ScopedScript
