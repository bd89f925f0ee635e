import ScopedScript.Proofs.Syntax.ExpressionCompleteness
import ScopedScript.Proofs.Syntax.Progress
import ScopedScript.Proofs.Syntax.Recovery

/-!
# The fuel of a reading suffices

Every reader takes a token between two calls of itself, so a fixed multiple of the number of tokens
is more fuel than a reading can spend, whether it ends well or with a fault. Reading past faults
spends no more: after a fault it goes on behind a token that it has not come to before.
-/

namespace ScopedScript

namespace Cursor

variable {c : Cursor}

theorem HasNext.length_advance (h : c.HasNext) : c.advance.rest.length + 1 = c.rest.length := by
  rw [h]
  rfl

theorem length_advance_of_not_or {b : Bool} (h : ¬(c.atEnd || b) = true) :
    c.advance.rest.length + 1 = c.rest.length :=
  (hasNext_of_atEnd_eq_false (Bool.or_eq_false_iff.mp (Bool.eq_false_iff.mpr h)).1).length_advance

theorem fromBoundary_length_le (previous : Token) (tokens : List Token) :
    (fromBoundary previous tokens).length ≤ tokens.length :=
  (Precedes.fromBoundary_suffix previous tokens).length_le

theorem synchronize_length_le (c : Cursor) : c.synchronize.rest.length ≤ c.rest.length - 1 := by
  unfold synchronize
  cases hrest : c.rest with
  | nil => simp [hrest]
  | cons t rest => exact fromBoundary_length_le t rest

end Cursor

namespace Reader

variable {α β : Type} {c : Cursor} {n k : Nat}

/-- From `c` on, a reader does not run out of fuel, and if it ends well then at most `n` tokens are
left, still with the end of the text behind them. -/
def Finishes (m : Reader α) (c : Cursor) (n : Nat) : Prop :=
  match m c with
  | .ok _ c' => c'.rest.length ≤ n ∧ c'.eof.kind = .eof
  | .fault _ _ => True
  | .exhausted => False

theorem finishes_pure {a : α} (hc : c.eof.kind = .eof) (hn : c.rest.length ≤ n) :
    Finishes (pure a) c n := ⟨hn, hc⟩

theorem finishes_fail {e : SyntaxError} : Finishes (Run.fail e : Reader α) c n := trivial

theorem finishes_blame {fault : SyntaxFault} : Finishes (blame fault : Reader α) c n := trivial

theorem Finishes.bind {m : Reader α} {f : α → Reader β} (h : Finishes m c n)
    (hf : ∀ a c', c'.rest.length ≤ n → c'.eof.kind = .eof → Finishes (f a) c' k) :
    Finishes (m >>= f) c k := by
  unfold Finishes at h ⊢
  rw [Run.bind_apply]
  cases hm : m c with
  | ok a c' =>
      rw [hm] at h
      exact hf a c' h.1 h.2
  | fault e c' => trivial
  | exhausted =>
      rw [hm] at h
      exact h

theorem Finishes.bind_of_ok {m : Reader α} {f : α → Reader β} {a : α} {c' : Cursor}
    (h : m c = .ok a c') (hf : Finishes (f a) c' k) : Finishes (m >>= f) c k := by
  unfold Finishes at *
  rwa [Run.bind_of_ok h]

theorem Finishes.bind_of_fault {m : Reader α} {f : α → Reader β} {e : SyntaxError} {c' : Cursor}
    (h : m c = .fault e c') : Finishes (m >>= f) c k := by
  unfold Finishes
  rw [Run.bind_apply, h]
  trivial

theorem Finishes.map {m : Reader α} {f : α → β} (h : Finishes m c n) :
    Finishes (f <$> m) c n := by
  rw [map_eq_pure_bind]
  exact h.bind fun _ _ hn hc => finishes_pure hc hn

theorem Finishes.mono {m : Reader α} (h : Finishes m c n) (hle : n ≤ k) : Finishes m c k := by
  unfold Finishes at h ⊢
  cases hm : m c with
  | ok a c' =>
      rw [hm] at h
      exact ⟨Nat.le_trans h.1 hle, h.2⟩
  | fault e c' => trivial
  | exhausted =>
      rw [hm] at h
      exact h

theorem Finishes.ne_exhausted {m : Reader α} (h : Finishes m c n) : m c ≠ .exhausted := by
  intro hm
  unfold Finishes at h
  rw [hm] at h
  exact h

section Elementary

variable (hc : c.eof.kind = .eof)

theorem Finishes.gets_bind {g : Cursor → α} {f : α → Reader β} (h : Finishes (f (g c)) c k) :
    Finishes (Run.gets g >>= f) c k := h

theorem Finishes.get_bind {f : Cursor → Reader β} (h : Finishes (f c) c k) :
    Finishes (Run.get >>= f) c k := h

theorem Finishes.freshId_bind {f : NodeId → Reader β}
    (h : Finishes (f c.nextId) { c with nextId := c.nextId + 1 } k) :
    Finishes (freshId >>= f) c k := h

include hc

theorem Finishes.advance_bind {f : Unit → Reader β} (hnext : c.peek.kind ≠ .eof)
    (h : ∀ c', c'.rest.length + 1 = c.rest.length → c'.eof.kind = .eof → Finishes (f ()) c' k) :
    Finishes (advance >>= f) c k :=
  h c.advance (Cursor.hasNext_of_peek_kind_ne hc hnext).length_advance hc

theorem Finishes.accept_bind {m : Mark} {f : Bool → Reader β}
    (htrue : ∀ c', c'.rest.length + 1 = c.rest.length → c'.eof.kind = .eof →
      Finishes (f true) c' k)
    (hfalse : Finishes (f false) c k) : Finishes (accept m >>= f) c k := by
  obtain ⟨rest, eof, nextId⟩ := c
  by_cases hmark : (Cursor.mk rest eof nextId).peek.kind = .mark m
  · cases rest with
    | nil => exact absurd (hc.symm.trans hmark) (by simp)
    | cons t rest =>
        have ht : t.kind = .mark m := hmark
        exact .bind_of_ok (accept_cons ht) (htrue ⟨rest, eof, nextId⟩ rfl hc)
  · exact .bind_of_ok (accept_of_ne hmark) hfalse

theorem Finishes.expect_bind {m : Mark} {fault : SyntaxFault} {f : Token → Reader β}
    (h : ∀ t c', c'.rest.length + 1 = c.rest.length → c'.eof.kind = .eof →
      Finishes (f t) c' k) : Finishes (expect m fault >>= f) c k := by
  cases hexpect : expect m fault c with
  | ok t c' =>
      obtain ⟨rfl, rfl, hnext, _⟩ := expect_eq_ok hexpect
      exact .bind_of_ok hexpect (h _ _ hnext.length_advance hc)
  | fault e c' => exact .bind_of_fault hexpect
  | exhausted =>
      obtain ⟨seen, hsees⟩ : ∃ seen, sees m c = .ok seen c := ⟨_, rfl⟩
      unfold expect at hexpect
      rw [Run.bind_of_ok hsees] at hexpect
      cases seen <;> cases hexpect

theorem Finishes.identifier_bind {fault : SyntaxFault} {f : Name → Reader β}
    (h : ∀ name c', c'.rest.length + 1 = c.rest.length → c'.eof.kind = .eof →
      Finishes (f name) c' k) : Finishes (identifier fault >>= f) c k := by
  cases hname : identifier fault c with
  | ok name c' =>
      obtain ⟨rfl, rfl, hnext, _⟩ := identifier_eq_ok hname hc
      exact .bind_of_ok hname (h _ _ hnext.length_advance hc)
  | fault e c' => exact .bind_of_fault hname
  | exhausted =>
      have hpeek : peek c = .ok c.peek c := rfl
      unfold identifier at hname
      rw [Run.bind_of_ok hpeek] at hname
      cases hkind : c.peek.kind with
      | identifier | mark _ | keyword _ | string _ | number _ | eof =>
          rw [hkind] at hname
          cases hname

end Elementary

variable {fuel : Nat}

/-- With a given fuel, the readers of expressions finish if it is a multiple of the number of
tokens that are left, and enough besides to go down through the levels of operators. -/
structure ExprReadersFinish (fuel : Nat) : Prop where
  expression {c : Cursor} : c.eof.kind = .eof → 16 * c.rest.length + 16 ≤ fuel →
    Finishes (Reader.expression fuel) c (c.rest.length - 1)
  level {c : Cursor} (l : Level) : c.eof.kind = .eof →
    16 * c.rest.length + 19 ≤ fuel + 2 * l.strength →
    Finishes (Reader.level fuel l) c (c.rest.length - 1)
  operand {c : Cursor} (l : Level) : c.eof.kind = .eof →
    16 * c.rest.length + 18 ≤ fuel + 2 * l.strength →
    Finishes (Reader.operand fuel l) c (c.rest.length - 1)
  operations {c : Cursor} (l : Level) (left : Expr) : c.eof.kind = .eof →
    16 * c.rest.length + 1 ≤ fuel → Finishes (Reader.operations fuel l left) c c.rest.length
  unary {c : Cursor} : c.eof.kind = .eof → 16 * c.rest.length + 3 ≤ fuel →
    Finishes (Reader.unary fuel) c (c.rest.length - 1)
  calls {c : Cursor} (callee : Expr) : c.eof.kind = .eof → 16 * c.rest.length + 2 ≤ fuel →
    Finishes (Reader.calls fuel callee) c c.rest.length
  arguments {c : Cursor} (count : Nat) : c.eof.kind = .eof → 16 * c.rest.length + 17 ≤ fuel →
    Finishes (Reader.arguments fuel count) c (c.rest.length - 1)
  primary {c : Cursor} : c.eof.kind = .eof → 16 * c.rest.length + 2 ≤ fuel →
    Finishes (Reader.primary fuel) c (c.rest.length - 1)

namespace ExprReadersFinish

variable (h : ExprReadersFinish fuel) (hc : c.eof.kind = .eof)

include h hc

theorem expression_succ (hfuel : 16 * c.rest.length + 16 ≤ fuel + 1) :
    Finishes (Reader.expression (fuel + 1)) c (c.rest.length - 1) := by
  rw [Reader.expression]
  refine (h.level .or hc (by simp only [Level.strength]; omega)).bind ?_
  intro target c₁ hlength hc₁
  refine .get_bind ?_
  refine .accept_bind hc₁ ?_ (finishes_pure hc₁ hlength)
  intro c₂ hlength₂ hc₂
  refine (h.expression hc₂ (by omega)).bind ?_
  intro value c₃ hlength₃ hc₃
  cases target with
  | name _ | get _ _ => exact finishes_pure hc₃ (by omega)
  | _ => exact finishes_fail

theorem level_succ (l : Level) (hfuel : 16 * c.rest.length + 19 ≤ fuel + 1 + 2 * l.strength) :
    Finishes (Reader.level (fuel + 1) l) c (c.rest.length - 1) := by
  have hstrength := l.strength_le
  rw [Reader.level]
  refine (h.operand l hc (by omega)).bind ?_
  intro left c₁ hlength hc₁
  exact (h.operations l left hc₁ (by omega)).mono hlength

theorem operand_succ (l : Level) (hfuel : 16 * c.rest.length + 18 ≤ fuel + 1 + 2 * l.strength) :
    Finishes (Reader.operand (fuel + 1) l) c (c.rest.length - 1) := by
  rw [Reader.operand]
  cases hl : l.tighter? with
  | some l' =>
      have hstrength := Level.strength_tighter hl
      exact h.level l' hc (by omega)
  | none =>
      have hstrength := Level.strength_tightest hl
      exact h.unary hc (by omega)

theorem operations_succ (l : Level) (left : Expr) (hfuel : 16 * c.rest.length + 1 ≤ fuel + 1) :
    Finishes (Reader.operations (fuel + 1) l left) c c.rest.length := by
  have hstrength := l.two_le_strength
  rw [Reader.operations]
  refine .gets_bind ?_
  cases hop : l.operator? c.peek.kind with
  | none => exact finishes_pure hc (Nat.le_refl _)
  | some op =>
      have hnext : c.peek.kind ≠ .eof := by
        intro heof
        rw [heof] at hop
        cases l <;> cases hop
      refine .advance_bind hc hnext ?_
      intro c₁ hlength hc₁
      refine (h.operand l hc₁ (by omega)).bind ?_
      intro right c₂ hlength₂ hc₂
      exact (h.operations l _ hc₂ (by omega)).mono (by omega)

theorem unary_succ (hfuel : 16 * c.rest.length + 3 ≤ fuel + 1) :
    Finishes (Reader.unary (fuel + 1)) c (c.rest.length - 1) := by
  rw [Reader.unary]
  refine .gets_bind ?_
  cases hop : UnaryOp.ofKind? c.peek.kind with
  | some op =>
      have hnext : c.peek.kind ≠ .eof := by
        intro heof
        rw [heof] at hop
        cases hop
      refine .advance_bind hc hnext ?_
      intro c₁ hlength hc₁
      exact ((h.unary hc₁ (by omega)).mono (by omega)).map
  | none =>
      refine (h.primary hc (by omega)).bind ?_
      intro callee c₁ hlength hc₁
      exact (h.calls callee hc₁ (by omega)).mono hlength

theorem calls_succ (callee : Expr) (hfuel : 16 * c.rest.length + 2 ≤ fuel + 1) :
    Finishes (Reader.calls (fuel + 1) callee) c c.rest.length := by
  rw [Reader.calls]
  refine .accept_bind hc ?_ (.accept_bind hc ?_ (finishes_pure hc (Nat.le_refl _)))
  · intro c₁ hlength hc₁
    have hcall : ∀ values c₂, c₂.rest.length ≤ c₁.rest.length → c₂.eof.kind = .eof →
        Finishes (do
          let closing ← expect .rightParen .noArgumentsClosing
          Reader.calls fuel (.call callee closing.line values)) c₂ c.rest.length := by
      intro values c₂ hlength₂ hc₂
      refine .expect_bind hc₂ ?_
      intro closing c₃ hlength₃ hc₃
      exact (h.calls _ hc₃ (by omega)).mono (by omega)
    refine .gets_bind ?_
    dsimp only
    split
    · exact hcall [] c₁ (Nat.le_refl _) hc₁
    · exact (h.arguments 0 hc₁ (by omega)).bind fun values c₂ hlength₂ hc₂ =>
        hcall values c₂ (by omega) hc₂
  · intro c₁ hlength hc₁
    refine .identifier_bind hc₁ ?_
    intro property c₂ hlength₂ hc₂
    exact (h.calls _ hc₂ (by omega)).mono (by omega)

theorem arguments_succ (count : Nat) (hfuel : 16 * c.rest.length + 17 ≤ fuel + 1) :
    Finishes (Reader.arguments (fuel + 1) count) c (c.rest.length - 1) := by
  rw [Reader.arguments]
  split
  · exact finishes_blame
  · refine (h.expression hc (by omega)).bind ?_
    intro value c₁ hlength hc₁
    refine .accept_bind hc₁ ?_ (finishes_pure hc₁ hlength)
    intro c₂ hlength₂ hc₂
    exact ((h.arguments _ hc₂ (by omega)).mono (by omega)).map

theorem primary_succ (hfuel : 16 * c.rest.length + 2 ≤ fuel + 1) :
    Finishes (Reader.primary (fuel + 1)) c (c.rest.length - 1) := by
  rw [Reader.primary]
  refine .gets_bind ?_
  cases hkind : c.peek.kind with
  | keyword w =>
      cases w with
      | falseWord | trueWord | nilWord =>
          refine .advance_bind hc (by simp [hkind]) ?_
          intro c₁ hlength hc₁
          exact finishes_pure hc₁ (by omega)
      | superWord =>
          refine .advance_bind hc (by simp [hkind]) ?_
          intro c₁ hlength hc₁
          refine .expect_bind hc₁ ?_
          intro _ c₂ hlength₂ hc₂
          refine .identifier_bind hc₂ ?_
          intro method c₃ hlength₃ hc₃
          refine .freshId_bind ?_
          exact finishes_pure hc₃ (by simp only; omega)
      | thisWord =>
          refine .advance_bind hc (by simp [hkind]) ?_
          intro c₁ hlength hc₁
          refine .freshId_bind ?_
          exact finishes_pure hc₁ (by simp only; omega)
      | _ => exact finishes_blame
  | mark m =>
      cases m with
      | leftParen =>
          refine .advance_bind hc (by simp [hkind]) ?_
          intro c₁ hlength hc₁
          refine (h.expression hc₁ (by omega)).bind ?_
          intro inner c₂ hlength₂ hc₂
          refine .expect_bind hc₂ ?_
          intro _ c₃ hlength₃ hc₃
          exact finishes_pure hc₃ (by omega)
      | _ => exact finishes_blame
  | number _ | string _ =>
      refine .advance_bind hc (by simp [hkind]) ?_
      intro c₁ hlength hc₁
      exact finishes_pure hc₁ (by omega)
  | identifier =>
      refine .advance_bind hc (by simp [hkind]) ?_
      intro c₁ hlength hc₁
      refine .freshId_bind ?_
      exact finishes_pure hc₁ (by simp only; omega)
  | eof => exact finishes_blame

end ExprReadersFinish

theorem exprReadersFinish (fuel : Nat) : ExprReadersFinish fuel := by
  induction fuel with
  | zero =>
      constructor
      case level | operand =>
        intro c l _ hfuel
        have hstrength := l.strength_le
        omega
      all_goals
        intros
        omega
  | succ fuel ih =>
      constructor
      case expression => exact fun {c} => ih.expression_succ
      case level => exact fun {c} l hc => ih.level_succ hc l
      case operand => exact fun {c} l hc => ih.operand_succ hc l
      case operations => exact fun {c} l left hc => ih.operations_succ hc l left
      case unary => exact fun {c} => ih.unary_succ
      case calls => exact fun {c} callee hc => ih.calls_succ hc callee
      case arguments => exact fun {c} count hc => ih.arguments_succ hc count
      case primary => exact fun {c} => ih.primary_succ

section Parts

variable (hc : c.eof.kind = .eof)

include hc

theorem finishes_expression (hfuel : 16 * c.rest.length + 16 ≤ fuel) :
    Finishes (expression fuel) c (c.rest.length - 1) :=
  (exprReadersFinish fuel).expression hc hfuel

theorem finishes_parameters (count : Nat) (hfuel : c.rest.length + 1 ≤ fuel) :
    Finishes (parameters fuel count) c (c.rest.length - 1) := by
  induction fuel generalizing c count with
  | zero => omega
  | succ fuel ih =>
      rw [parameters]
      split
      · exact finishes_blame
      · refine .identifier_bind hc ?_
        intro name c₁ hlength hc₁
        refine .accept_bind hc₁ ?_ (finishes_pure hc₁ (by omega))
        intro c₂ hlength₂ hc₂
        exact ((ih hc₂ _ (by omega)).mono (by omega)).map

theorem finishes_expressionUnless (m : Mark) (hfuel : 16 * c.rest.length + 16 ≤ fuel) :
    Finishes (expressionUnless fuel m) c c.rest.length := by
  refine .gets_bind ?_
  split
  · exact finishes_pure hc (Nat.le_refl _)
  · exact ((finishes_expression hc hfuel).mono (Nat.sub_le _ 1)).map

theorem finishes_varDeclaration (hfuel : 16 * c.rest.length ≤ fuel) :
    Finishes (varDeclaration fuel) c (c.rest.length - 1) := by
  refine .identifier_bind hc ?_
  intro name c₁ hlength hc₁
  have hend : ∀ initial c₂, c₂.rest.length ≤ c₁.rest.length → c₂.eof.kind = .eof →
      Finishes (do
        let _ ← expect .semicolon .noVariableEnd
        return Stmt.var name initial) c₂ (c.rest.length - 1) := by
    intro initial c₂ hlength₂ hc₂
    refine .expect_bind hc₂ ?_
    intro _ c₃ hlength₃ hc₃
    exact finishes_pure hc₃ (by omega)
  refine .accept_bind hc₁ ?_ (hend none c₁ (Nat.le_refl _) hc₁)
  intro c₂ hlength₂ hc₂
  refine (finishes_expression hc₂ (by omega)).map.bind ?_
  intro initial c₃ hlength₃ hc₃
  exact hend initial c₃ (by omega) hc₃

theorem finishes_expressionStatement (hfuel : 16 * c.rest.length + 16 ≤ fuel) :
    Finishes (expressionStatement fuel) c (c.rest.length - 1) := by
  refine (finishes_expression hc hfuel).bind ?_
  intro e c₁ hlength hc₁
  refine .expect_bind hc₁ ?_
  intro _ c₂ hlength₂ hc₂
  exact finishes_pure hc₂ (by omega)

theorem finishes_forInitial (hfuel : 16 * c.rest.length + 16 ≤ fuel) :
    Finishes (forInitial fuel) c c.rest.length := by
  have hexpression : Finishes (some <$> expressionStatement fuel) c c.rest.length :=
    ((finishes_expressionStatement hc hfuel).mono (Nat.sub_le _ 1)).map
  refine .gets_bind ?_
  cases hkind : c.peek.kind with
  | mark m =>
      cases m with
      | semicolon =>
          refine .advance_bind hc (by simp [hkind]) ?_
          intro c₁ hlength hc₁
          exact finishes_pure hc₁ (by omega)
      | _ => exact hexpression
  | keyword w =>
      cases w with
      | varWord =>
          refine .advance_bind hc (by simp [hkind]) ?_
          intro c₁ hlength hc₁
          exact ((finishes_varDeclaration hc₁ (by omega)).mono (by omega)).map
      | _ => exact hexpression
  | identifier | string _ | number _ | eof => exact hexpression

theorem finishes_superclass : Finishes superclass c c.rest.length := by
  refine .accept_bind hc ?_ (finishes_pure hc (Nat.le_refl _))
  intro c₁ hlength hc₁
  refine .identifier_bind hc₁ ?_
  intro name c₂ hlength₂ hc₂
  refine .freshId_bind ?_
  exact finishes_pure hc₂ (by simp only; omega)

end Parts

/-- With a given fuel, the readers of statements finish if it is a multiple of the number of tokens
that are left, and enough besides for an expression that begins here. -/
structure StmtReadersFinish (fuel : Nat) : Prop where
  declaration {c : Cursor} : c.eof.kind = .eof → 16 * c.rest.length + 18 ≤ fuel →
    Finishes (Reader.declaration fuel) c (c.rest.length - 1)
  methods {c : Cursor} : c.eof.kind = .eof → 16 * c.rest.length + 5 ≤ fuel →
    Finishes (Reader.methods fuel) c (c.rest.length - 1)
  function {c : Cursor} (routine : Routine) : c.eof.kind = .eof → 16 * c.rest.length + 4 ≤ fuel →
    Finishes (Reader.function fuel routine) c (c.rest.length - 1)
  block {c : Cursor} : c.eof.kind = .eof → 16 * c.rest.length + 19 ≤ fuel →
    Finishes (Reader.block fuel) c (c.rest.length - 1)
  statement {c : Cursor} : c.eof.kind = .eof → 16 * c.rest.length + 17 ≤ fuel →
    Finishes (Reader.statement fuel) c (c.rest.length - 1)

namespace StmtReadersFinish

variable (h : StmtReadersFinish fuel) (hc : c.eof.kind = .eof)

include h hc

theorem declaration_succ (hfuel : 16 * c.rest.length + 18 ≤ fuel + 1) :
    Finishes (Reader.declaration (fuel + 1)) c (c.rest.length - 1) := by
  have hstatement : Finishes (Reader.statement fuel) c (c.rest.length - 1) :=
    h.statement hc (by omega)
  rw [Reader.declaration]
  refine .gets_bind ?_
  cases hkind : c.peek.kind with
  | keyword w =>
      cases w with
      | classWord =>
          refine .advance_bind hc (by simp [hkind]) ?_
          intro c₁ hlength hc₁
          refine .identifier_bind hc₁ ?_
          intro name c₂ hlength₂ hc₂
          refine (finishes_superclass hc₂).bind ?_
          intro superclass c₃ hlength₃ hc₃
          refine .expect_bind hc₃ ?_
          intro _ c₄ hlength₄ hc₄
          exact ((h.methods hc₄ (by omega)).mono (by omega)).map
      | funWord =>
          refine .advance_bind hc (by simp [hkind]) ?_
          intro c₁ hlength hc₁
          exact ((h.function .function hc₁ (by omega)).mono (by omega)).map
      | varWord =>
          refine .advance_bind hc (by simp [hkind]) ?_
          intro c₁ hlength hc₁
          exact (finishes_varDeclaration hc₁ (by omega)).mono (by omega)
      | _ => exact hstatement
  | mark _ | identifier | string _ | number _ | eof => exact hstatement

theorem methods_succ (hfuel : 16 * c.rest.length + 5 ≤ fuel + 1) :
    Finishes (Reader.methods (fuel + 1)) c (c.rest.length - 1) := by
  rw [Reader.methods]
  refine .gets_bind (.gets_bind ?_)
  split
  case isTrue =>
    refine .expect_bind hc ?_
    intro _ c₁ hlength hc₁
    exact finishes_pure hc₁ (by omega)
  case isFalse hend =>
    have hlength := Cursor.length_advance_of_not_or hend
    refine (h.function .method hc (by omega)).bind ?_
    intro method c₁ hlength₁ hc₁
    exact ((h.methods hc₁ (by omega)).mono (by omega)).map

theorem function_succ (routine : Routine) (hfuel : 16 * c.rest.length + 4 ≤ fuel + 1) :
    Finishes (Reader.function (fuel + 1) routine) c (c.rest.length - 1) := by
  rw [Reader.function]
  refine .identifier_bind hc ?_
  intro name c₁ hlength₁ hc₁
  refine .expect_bind hc₁ ?_
  intro _ c₂ hlength₂ hc₂
  have hbody : ∀ names c₃, c₃.rest.length ≤ c₂.rest.length → c₃.eof.kind = .eof →
      Finishes (do
        let _ ← expect .rightParen .noParametersClosing
        let _ ← expect .leftBrace (.noBodyOpening routine)
        let body ← Reader.block fuel
        return FunctionDecl.mk name names body) c₃ (c.rest.length - 1) := by
    intro names c₃ hlength₃ hc₃
    refine .expect_bind hc₃ ?_
    intro _ c₄ hlength₄ hc₄
    refine .expect_bind hc₄ ?_
    intro _ c₅ hlength₅ hc₅
    exact ((h.block hc₅ (by omega)).mono (by omega)).map
  refine .gets_bind ?_
  dsimp only
  split
  · exact hbody [] c₂ (Nat.le_refl _) hc₂
  · refine (finishes_parameters hc₂ 0 (by omega)).bind ?_
    intro names c₃ hlength₃ hc₃
    exact hbody names c₃ (by omega) hc₃

theorem block_succ (hfuel : 16 * c.rest.length + 19 ≤ fuel + 1) :
    Finishes (Reader.block (fuel + 1)) c (c.rest.length - 1) := by
  rw [Reader.block]
  refine .gets_bind (.gets_bind ?_)
  split
  case isTrue =>
    refine .expect_bind hc ?_
    intro _ c₁ hlength hc₁
    exact finishes_pure hc₁ (by omega)
  case isFalse hend =>
    have hlength := Cursor.length_advance_of_not_or hend
    refine (h.declaration hc (by omega)).bind ?_
    intro first c₁ hlength₁ hc₁
    exact ((h.block hc₁ (by omega)).mono (by omega)).map

theorem loop_statement (hfuel : 16 * c.rest.length + 17 ≤ fuel + 1) :
    Finishes (do
      let _ ← expect .leftParen .noForOpening
      let initial ← forInitial fuel
      let condition ← expressionUnless fuel .semicolon
      let _ ← expect .semicolon .noLoopConditionEnd
      let step ← expressionUnless fuel .rightParen
      let _ ← expect .rightParen .noForClosing
      let body ← Reader.statement fuel
      return Stmt.forLoop initial condition step body) c (c.rest.length - 1) := by
  refine .expect_bind hc ?_
  intro _ c₁ hlength₁ hc₁
  refine (finishes_forInitial hc₁ (by omega)).bind ?_
  intro initial c₂ hlength₂ hc₂
  refine (finishes_expressionUnless hc₂ .semicolon (by omega)).bind ?_
  intro condition c₃ hlength₃ hc₃
  refine .expect_bind hc₃ ?_
  intro _ c₄ hlength₄ hc₄
  refine (finishes_expressionUnless hc₄ .rightParen (by omega)).bind ?_
  intro step c₅ hlength₅ hc₅
  refine .expect_bind hc₅ ?_
  intro _ c₆ hlength₆ hc₆
  exact ((h.statement hc₆ (by omega)).mono (by omega)).map

theorem statement_succ (hfuel : 16 * c.rest.length + 17 ≤ fuel + 1) :
    Finishes (Reader.statement (fuel + 1)) c (c.rest.length - 1) := by
  have hexpression : Finishes (expressionStatement fuel) c (c.rest.length - 1) :=
    finishes_expressionStatement hc (by omega)
  rw [Reader.statement]
  refine .gets_bind ?_
  cases hkind : c.peek.kind with
  | keyword w =>
      cases w with
      | forWord =>
          refine .advance_bind hc (by simp [hkind]) ?_
          intro c₁ hlength hc₁
          exact (h.loop_statement hc₁ (by omega)).mono (by omega)
      | ifWord =>
          refine .advance_bind hc (by simp [hkind]) ?_
          intro c₁ hlength hc₁
          refine .expect_bind hc₁ ?_
          intro _ c₂ hlength₂ hc₂
          refine (finishes_expression hc₂ (by omega)).bind ?_
          intro condition c₃ hlength₃ hc₃
          refine .expect_bind hc₃ ?_
          intro _ c₄ hlength₄ hc₄
          refine (h.statement hc₄ (by omega)).bind ?_
          intro thenBranch c₅ hlength₅ hc₅
          refine .gets_bind ?_
          split
          case h_1 helse =>
            refine .advance_bind hc₅ (by simp [helse]) ?_
            intro c₆ hlength₆ hc₆
            exact ((h.statement hc₆ (by omega)).mono (by omega)).map
          case h_2 => exact finishes_pure hc₅ (by omega)
      | printWord =>
          refine .advance_bind hc (by simp [hkind]) ?_
          intro c₁ hlength hc₁
          refine (finishes_expression hc₁ (by omega)).bind ?_
          intro value c₂ hlength₂ hc₂
          refine .expect_bind hc₂ ?_
          intro _ c₃ hlength₃ hc₃
          exact finishes_pure hc₃ (by omega)
      | returnWord =>
          refine .advance_bind hc (by simp [hkind]) ?_
          intro c₁ hlength hc₁
          refine (finishes_expressionUnless hc₁ .semicolon (by omega)).bind ?_
          intro value c₂ hlength₂ hc₂
          refine .expect_bind hc₂ ?_
          intro _ c₃ hlength₃ hc₃
          exact finishes_pure hc₃ (by omega)
      | whileWord =>
          refine .advance_bind hc (by simp [hkind]) ?_
          intro c₁ hlength hc₁
          refine .expect_bind hc₁ ?_
          intro _ c₂ hlength₂ hc₂
          refine (finishes_expression hc₂ (by omega)).bind ?_
          intro condition c₃ hlength₃ hc₃
          refine .expect_bind hc₃ ?_
          intro _ c₄ hlength₄ hc₄
          exact ((h.statement hc₄ (by omega)).mono (by omega)).map
      | _ => exact hexpression
  | mark m =>
      cases m with
      | leftBrace =>
          refine .advance_bind hc (by simp [hkind]) ?_
          intro c₁ hlength hc₁
          exact ((h.block hc₁ (by omega)).mono (by omega)).map
      | _ => exact hexpression
  | identifier | string _ | number _ | eof => exact hexpression

end StmtReadersFinish

theorem stmtReadersFinish (fuel : Nat) : StmtReadersFinish fuel := by
  induction fuel with
  | zero =>
      constructor
      all_goals
        intros
        omega
  | succ fuel ih =>
      constructor
      case declaration => exact fun {c} => ih.declaration_succ
      case methods => exact fun {c} => ih.methods_succ
      case function => exact fun {c} routine hc => ih.function_succ hc routine
      case block => exact fun {c} => ih.block_succ
      case statement => exact fun {c} => ih.statement_succ

theorem finishes_program (hc : c.eof.kind = .eof) (hfuel : 16 * c.rest.length + 19 ≤ fuel) :
    Finishes (program fuel) c c.rest.length := by
  induction fuel generalizing c with
  | zero => omega
  | succ fuel ih =>
      rw [program]
      refine .gets_bind ?_
      split
      case isTrue => exact finishes_pure hc (Nat.le_refl _)
      case isFalse hend =>
        have hlength :=
          (Cursor.hasNext_of_atEnd_eq_false (Bool.eq_false_iff.mpr hend)).length_advance
        refine ((stmtReadersFinish fuel).declaration hc (by omega)).bind ?_
        intro first c₁ hlength₁ hc₁
        exact ((ih hc₁ (by omega)).mono (by omega)).map

/-- Enough fuel to read a program is enough to read it past its faults. -/
theorem finishes_recoveringProgram (hc : c.eof.kind = .eof)
    (hfuel : 16 * c.rest.length + 19 ≤ fuel) :
    Finishes (recoveringProgram fuel) c c.rest.length := by
  induction fuel generalizing c with
  | zero => omega
  | succ fuel ih =>
      unfold Finishes
      rw [recoveringProgram_succ]
      cases hend : c.atEnd with
      | true => exact ⟨Nat.le_refl _, hc⟩
      | false =>
          have hlength := (Cursor.hasNext_of_atEnd_eq_false hend).length_advance
          have hfirst := (stmtReadersFinish fuel).declaration hc (by omega)
          unfold Finishes at hfirst
          cases hdeclaration : declaration fuel c with
          | ok s c₁ =>
              rw [hdeclaration] at hfirst
              exact ((ih hfirst.2 (by omega)).mono (by omega)).map
          | fault e c₁ =>
              have hforward := (((stmtReadersForward fuel).declaration c).fault hdeclaration).precedes
              have hle := hforward.rest_suffix.length_le
              have hsynchronize := c₁.synchronize_length_le
              have hc₁ : c₁.synchronize.eof.kind = .eof := by
                rw [(Cursor.Precedes.synchronize c₁).eof_eq, hforward.eof_eq, hc]
              exact ((ih hc₁ (by omega)).mono (by omega)).map
          | exhausted =>
              rw [hdeclaration] at hfirst
              exact hfirst.elim

end Reader

/-- What a cursor needs for the readers to finish from it. -/
theorem Cursor.ofTokens_finishes (tokens : List Token) (base : NodeId) :
    (Cursor.ofTokens tokens base).eof.kind = .eof ∧
      16 * (Cursor.ofTokens tokens base).rest.length + 19 ≤ readingFuel tokens := by
  constructor
  · unfold Cursor.ofTokens
    cases hfind : tokens.find? Token.isEof with
    | none => rfl
    | some t => exact Token.isEof_iff.mp (List.find?_some hfind)
  · have hlength : (Cursor.ofTokens tokens base).rest.length ≤ tokens.length :=
      (List.takeWhile_prefix _).length_le
    unfold readingFuel
    omega

/-- Reading a program does not run out of the fuel it is given. -/
theorem program_readingFuel_ne_exhausted (tokens : List Token) (base : NodeId) :
    Reader.program (readingFuel tokens) (Cursor.ofTokens tokens base) ≠ .exhausted := by
  obtain ⟨heof, hfuel⟩ := Cursor.ofTokens_finishes tokens base
  exact (Reader.finishes_program heof hfuel).ne_exhausted

/-- Reading past faults does not run out of the fuel it is given. -/
theorem recoveringProgram_readingFuel_ne_exhausted (tokens : List Token) (base : NodeId) :
    Reader.recoveringProgram (readingFuel tokens) (Cursor.ofTokens tokens base) ≠ .exhausted := by
  obtain ⟨heof, hfuel⟩ := Cursor.ofTokens_finishes tokens base
  exact (Reader.finishes_recoveringProgram heof hfuel).ne_exhausted

theorem errorsOf_map_ok (p : List Stmt) : errorsOf (p.map .ok) = [] := by
  induction p with
  | nil => rfl
  | cons s p ih => exact ih

theorem statementsOf_map_ok (p : List Stmt) : statementsOf (p.map .ok) = p := by
  induction p with
  | nil => rfl
  | cons s p ih => exact congrArg (List.cons s) ih

section Readings

variable {tokens : List Token} {base : NodeId}

/-- A text that is a program is read as the same program past its faults. -/
theorem readPastFaults_of_readProgram_ok {p : List Stmt}
    (h : (readProgram tokens base).result = .ok p) :
    errorsOf (readPastFaults tokens base).result = [] ∧
      statementsOf (readPastFaults tokens base).result = p ∧
      (readPastFaults tokens base).nextId = (readProgram tokens base).nextId := by
  obtain ⟨c, hread, hnextId⟩ := readProgram_eq_ok h
  unfold readPastFaults
  simp only [Reader.recoveringProgram_of_program_eq_ok hread]
  exact ⟨errorsOf_map_ok p, statementsOf_map_ok p, hnextId.symm⟩

/-- The fault of a text that is no program is the first one that is found past faults, where no
fewer numbers are given out. -/
theorem readPastFaults_of_readProgram_error {e : SyntaxError}
    (h : (readProgram tokens base).result = .error e) :
    ∃ es, errorsOf (readPastFaults tokens base).result = e :: es ∧
      (readProgram tokens base).nextId ≤ (readPastFaults tokens base).nextId := by
  unfold readProgram at h ⊢
  unfold readPastFaults
  cases hread : Reader.program (readingFuel tokens) (Cursor.ofTokens tokens base) with
  | ok p c =>
      simp only [hread] at h
      cases h
  | fault e' c =>
      simp only [hread] at h ⊢
      cases h
      obtain ⟨ds, d, es, hds, herrors, hle⟩ := Reader.recoveringProgram_of_program_eq_fault hread
        (recoveringProgram_readingFuel_ne_exhausted tokens base)
      simp only [hds]
      exact ⟨es, herrors, hle⟩
  | exhausted => exact (program_readingFuel_ne_exhausted tokens base hread).elim

end Readings

end ScopedScript
