import ScopedScript.Proofs.Syntax.Cursor

/-!
# Expressions are read from what they are written as

When a reader of expressions ends well, the tokens it took are what the expression it gives is
written as, and the numbers of references were given out one after the other.
-/

namespace ScopedScript

/-- A phrase of an expression stands between two places. -/
def ReadsExpr (p : ExprPhrase) (c c' : Cursor) : Prop :=
  ∃ w, Takes c w c' ∧ WrittenExpr p c.nextId w c'.nextId

/-- With a given fuel, the readers of expressions read phrases of their sorts. -/
structure ExprReadersSound (fuel : Nat) : Prop where
  expression {c e c'} : Reader.expression fuel c = .ok e c' → c.eof.kind = .eof →
    ReadsExpr (.expression e) c c'
  level {l c e c'} : Reader.level fuel l c = .ok e c' → c.eof.kind = .eof →
    ReadsExpr (.level l e) c c'
  operand {l c e c'} : Reader.operand fuel l c = .ok e c' → c.eof.kind = .eof →
    ReadsExpr (.operand l e) c c'
  operations {l left c e c'} : Reader.operations fuel l left c = .ok e c' → c.eof.kind = .eof →
    ReadsExpr (.operations l left e) c c'
  unary {c e c'} : Reader.unary fuel c = .ok e c' → c.eof.kind = .eof →
    ReadsExpr (.unary e) c c'
  calls {callee c e c'} : Reader.calls fuel callee c = .ok e c' → c.eof.kind = .eof →
    ReadsExpr (.calls callee e) c c'
  arguments {count c es c'} : Reader.arguments fuel count c = .ok es c' → c.eof.kind = .eof →
    count + es.length ≤ maxArity ∧ ReadsExpr (.arguments es) c c'
  primary {c e c'} : Reader.primary fuel c = .ok e c' → c.eof.kind = .eof →
    ReadsExpr (.primary e) c c'

namespace ExprReadersSound

open Reader

variable {fuel : Nat} {c c' : Cursor}

theorem expression_succ (ih : ExprReadersSound fuel) {e : Expr}
    (h : Reader.expression (fuel + 1) c = .ok e c') (hc : c.eof.kind = .eof) :
    ReadsExpr (.expression e) c c' := by
  unfold Reader.expression at h
  obtain ⟨target, c₁, htarget, h⟩ := Run.bind_eq_ok.mp h
  obtain ⟨w, hw, htarget⟩ := ih.level htarget hc
  obtain ⟨here, _, hhere, h⟩ := Run.bind_eq_ok.mp h
  cases hhere
  obtain ⟨b, c₂, haccept, h⟩ := Run.bind_eq_ok.mp h
  obtain ⟨rfl, rfl, hnext, hkind⟩ | ⟨rfl, rfl, _⟩ := accept_eq_ok haccept
  · obtain ⟨value, c₃, hvalue, h⟩ := Run.bind_eq_ok.mp h
    obtain ⟨v, hv, hvalue⟩ := ih.expression hvalue (hw.eof_kind hc)
    have htakes := hw.trans (hnext.takes.trans hv)
    -- any other expression in front of an equals sign is a fault
    cases target with
    | name ref =>
        cases h
        exact ⟨_, htakes, .assign htarget hkind hvalue⟩
    | get object property =>
        cases h
        exact ⟨_, htakes, .set htarget hkind hvalue⟩
    | _ => cases h
  · cases h
    exact ⟨w, hw, .plain htarget⟩

theorem level_succ (ih : ExprReadersSound fuel) {l : Level} {e : Expr}
    (h : Reader.level (fuel + 1) l c = .ok e c') (hc : c.eof.kind = .eof) :
    ReadsExpr (.level l e) c c' := by
  obtain ⟨left, c₁, hleft, h⟩ := Run.bind_eq_ok.mp h
  obtain ⟨w, hw, hleft⟩ := ih.operand hleft hc
  obtain ⟨v, hv, hrest⟩ := ih.operations h (hw.eof_kind hc)
  exact ⟨_, hw.trans hv, .level hleft hrest⟩

theorem operand_succ (ih : ExprReadersSound fuel) {l : Level} {e : Expr}
    (h : Reader.operand (fuel + 1) l c = .ok e c') (hc : c.eof.kind = .eof) :
    ReadsExpr (.operand l e) c c' := by
  unfold Reader.operand at h
  cases hl : l.tighter? with
  | some l' =>
      simp only [hl] at h
      obtain ⟨w, hw, hlevel⟩ := ih.level h hc
      exact ⟨w, hw, .tighter hl hlevel⟩
  | none =>
      simp only [hl] at h
      obtain ⟨w, hw, hunary⟩ := ih.unary h hc
      exact ⟨w, hw, .tightest hl hunary⟩

theorem operations_succ (ih : ExprReadersSound fuel) {l : Level} {left e : Expr}
    (h : Reader.operations (fuel + 1) l left c = .ok e c') (hc : c.eof.kind = .eof) :
    ReadsExpr (.operations l left e) c c' := by
  obtain ⟨t, _, hpeek, h⟩ := Run.bind_eq_ok.mp h
  cases hpeek
  cases hop : l.operator? c.peek.kind with
  | none =>
      simp only [hop] at h
      cases h
      exact ⟨[], .refl c, .noOperation⟩
  | some op =>
      simp only [hop] at h
      obtain ⟨_, _, hadvance, h⟩ := Run.bind_eq_ok.mp h
      cases hadvance
      -- an operator is not the end of the text, which is of a kind of its own
      have hnext : c.HasNext := by
        apply Cursor.hasNext_of_peek_kind_ne hc
        intro heof
        rw [heof] at hop
        cases l <;> cases hop
      obtain ⟨right, c₂, hright, h⟩ := Run.bind_eq_ok.mp h
      obtain ⟨w, hw, hright⟩ := ih.operand hright hc
      obtain ⟨v, hv, hrest⟩ := ih.operations h (hw.eof_kind hc)
      exact ⟨_, (hnext.takes.trans hw).trans hv, .operation hop hright hrest⟩

theorem unary_succ (ih : ExprReadersSound fuel) {e : Expr}
    (h : Reader.unary (fuel + 1) c = .ok e c') (hc : c.eof.kind = .eof) :
    ReadsExpr (.unary e) c c' := by
  obtain ⟨t, _, hpeek, h⟩ := Run.bind_eq_ok.mp h
  cases hpeek
  cases hop : UnaryOp.ofKind? c.peek.kind with
  | some op =>
      simp only [hop] at h
      obtain ⟨_, _, hadvance, h⟩ := Run.bind_eq_ok.mp h
      cases hadvance
      have hnext : c.HasNext := by
        apply Cursor.hasNext_of_peek_kind_ne hc
        intro heof
        rw [heof] at hop
        cases hop
      obtain ⟨operand, c₂, hoperand, h⟩ := Run.bind_eq_ok.mp h
      obtain ⟨w, hw, hoperand⟩ := ih.unary hoperand hc
      cases h
      exact ⟨_, hnext.takes.trans hw, .prefixed hop hoperand⟩
  | none =>
      simp only [hop] at h
      obtain ⟨callee, c₁, hcallee, h⟩ := Run.bind_eq_ok.mp h
      obtain ⟨w, hw, hcallee⟩ := ih.primary hcallee hc
      obtain ⟨v, hv, hcalls⟩ := ih.calls h (hw.eof_kind hc)
      exact ⟨_, hw.trans hv, .called hcallee hcalls⟩

theorem calls_succ (ih : ExprReadersSound fuel) {callee e : Expr}
    (h : Reader.calls (fuel + 1) callee c = .ok e c') (hc : c.eof.kind = .eof) :
    ReadsExpr (.calls callee e) c c' := by
  obtain ⟨b, _, haccept, h⟩ := Run.bind_eq_ok.mp h
  obtain ⟨rfl, rfl, hopen, hopenKind⟩ | ⟨rfl, rfl, _⟩ := accept_eq_ok haccept
  · rw [if_pos rfl] at h
    obtain ⟨empty, _, hsees, h⟩ := Run.bind_eq_ok.mp h
    obtain ⟨rfl, _⟩ := sees_eq_ok hsees
    cases empty with
    | true =>
        rw [if_pos rfl, pure_bind] at h
        obtain ⟨closing, _, hclosing, h⟩ := Run.bind_eq_ok.mp h
        obtain ⟨rfl, rfl, hclose, hcloseKind⟩ := expect_eq_ok hclosing
        obtain ⟨v, hv, hrest⟩ := ih.calls h hc
        exact ⟨_, hopen.takes.trans (hclose.takes.trans hv),
          .callWithout hopenKind hcloseKind hrest⟩
    | false =>
        rw [if_neg Bool.false_ne_true] at h
        obtain ⟨es, c₃, hvalues, h⟩ := Run.bind_eq_ok.mp h
        obtain ⟨closing, _, hclosing, h⟩ := Run.bind_eq_ok.mp h
        obtain ⟨rfl, rfl, hclose, hcloseKind⟩ := expect_eq_ok hclosing
        obtain ⟨hlength, w, hw, hes⟩ := ih.arguments hvalues hc
        obtain ⟨v, hv, hrest⟩ := ih.calls h (hw.eof_kind hc)
        exact ⟨_, (hopen.takes.trans hw).trans (hclose.takes.trans hv),
          .callWith hopenKind (by omega) hes hcloseKind hrest⟩
  · rw [if_neg Bool.false_ne_true] at h
    obtain ⟨b, _, haccept, h⟩ := Run.bind_eq_ok.mp h
    obtain ⟨rfl, rfl, hdot, hdotKind⟩ | ⟨rfl, rfl, _⟩ := accept_eq_ok haccept
    · rw [if_pos rfl] at h
      obtain ⟨property, _, hproperty, h⟩ := Run.bind_eq_ok.mp h
      obtain ⟨rfl, rfl, hname, hnameKind⟩ := identifier_eq_ok hproperty hc
      obtain ⟨v, hv, hrest⟩ := ih.calls h hc
      exact ⟨_, hdot.takes.trans (hname.takes.trans hv), .property hdotKind hnameKind hrest⟩
    · rw [if_neg Bool.false_ne_true] at h
      cases h
      exact ⟨[], .refl _, .noCall⟩

theorem arguments_succ (ih : ExprReadersSound fuel) {count : Nat} {es : List Expr}
    (h : Reader.arguments (fuel + 1) count c = .ok es c') (hc : c.eof.kind = .eof) :
    count + es.length ≤ maxArity ∧ ReadsExpr (.arguments es) c c' := by
  unfold Reader.arguments at h
  by_cases hcount : maxArity ≤ count
  · rw [if_pos hcount] at h
    cases h
  rw [if_neg hcount] at h
  obtain ⟨value, c₁, hvalue, h⟩ := Run.bind_eq_ok.mp h
  obtain ⟨w, hw, hvalue⟩ := ih.expression hvalue hc
  obtain ⟨b, c₂, haccept, h⟩ := Run.bind_eq_ok.mp h
  obtain ⟨rfl, rfl, hcomma, hcommaKind⟩ | ⟨rfl, rfl, _⟩ := accept_eq_ok haccept
  · rw [if_pos rfl] at h
    obtain ⟨rest, c₃, hrest, h⟩ := Run.bind_eq_ok.mp h
    obtain ⟨hlength, v, hv, hrest⟩ := ih.arguments hrest (hw.eof_kind hc)
    cases h
    refine ⟨?_, _, hw.trans (hcomma.takes.trans hv), .argument hvalue hcommaKind hrest⟩
    simp only [List.length_cons]
    omega
  · rw [if_neg Bool.false_ne_true] at h
    cases h
    refine ⟨?_, w, hw, .lastArgument hvalue⟩
    simp only [List.length_singleton]
    omega

theorem primary_succ (ih : ExprReadersSound fuel) {e : Expr}
    (h : Reader.primary (fuel + 1) c = .ok e c') (hc : c.eof.kind = .eof) :
    ReadsExpr (.primary e) c c' := by
  obtain ⟨t, _, hpeek, h⟩ := Run.bind_eq_ok.mp h
  cases hpeek
  have hnext (hkind : c.peek.kind ≠ .eof) : c.HasNext := Cursor.hasNext_of_peek_kind_ne hc hkind
  cases hkind : c.peek.kind with
  | number value =>
      simp only [hkind] at h
      cases h
      exact ⟨_, (hnext (by simp [hkind])).takes, .literal (by rw [hkind]; rfl)⟩
  | string text =>
      simp only [hkind] at h
      cases h
      exact ⟨_, (hnext (by simp [hkind])).takes, .literal (by rw [hkind]; rfl)⟩
  | identifier =>
      simp only [hkind] at h
      cases h
      exact ⟨[c.peek], ⟨hnext (by simp [hkind]), rfl⟩, .name hkind⟩
  | keyword k =>
      have hfirst := hnext (by simp [hkind])
      cases k with
      | falseWord | trueWord | nilWord =>
          simp only [hkind] at h
          cases h
          exact ⟨_, hfirst.takes, .literal (by rw [hkind]; rfl)⟩
      | thisWord =>
          simp only [hkind] at h
          cases h
          exact ⟨[c.peek], ⟨hfirst, rfl⟩, .receiver hkind⟩
      | superWord =>
          simp only [hkind] at h
          obtain ⟨_, _, hadvance, h⟩ := Run.bind_eq_ok.mp h
          cases hadvance
          obtain ⟨dot, _, hdot, h⟩ := Run.bind_eq_ok.mp h
          obtain ⟨rfl, rfl, hdot, hdotKind⟩ := expect_eq_ok hdot
          obtain ⟨method, _, hmethod, h⟩ := Run.bind_eq_ok.mp h
          obtain ⟨rfl, rfl, hname, hnameKind⟩ := identifier_eq_ok hmethod hc
          cases h
          -- the tokens leave the number behind that the reference to the superclass takes
          have htakes := hfirst.takes.trans (hdot.takes.trans hname.takes)
          exact ⟨_, ⟨htakes.rest_eq, htakes.eof_eq⟩, .inherited hkind hdotKind hnameKind⟩
      | _ =>
          simp only [hkind] at h
          cases h
  | mark m =>
      cases m with
      | leftParen =>
          simp only [hkind] at h
          obtain ⟨_, _, hadvance, h⟩ := Run.bind_eq_ok.mp h
          cases hadvance
          obtain ⟨inner, c₂, hinner, h⟩ := Run.bind_eq_ok.mp h
          obtain ⟨w, hw, hinner⟩ := ih.expression hinner hc
          obtain ⟨closing, _, hclosing, h⟩ := Run.bind_eq_ok.mp h
          obtain ⟨rfl, rfl, hclose, hcloseKind⟩ := expect_eq_ok hclosing
          cases h
          exact ⟨_, ((hnext (by simp [hkind])).takes.trans hw).trans hclose.takes,
            .grouping hkind hinner hcloseKind⟩
      | _ =>
          simp only [hkind] at h
          cases h
  | eof =>
      simp only [hkind] at h
      cases h

end ExprReadersSound

/-- The readers of expressions read what the phrases of their sorts are written as. -/
theorem exprReadersSound (fuel : Nat) : ExprReadersSound fuel := by
  induction fuel with
  | zero => constructor <;> intros <;> contradiction
  | succ fuel ih =>
      exact {
        expression := ih.expression_succ
        level := ih.level_succ
        operand := ih.operand_succ
        operations := ih.operations_succ
        unary := ih.unary_succ
        calls := ih.calls_succ
        arguments := ih.arguments_succ
        primary := ih.primary_succ }

end ScopedScript
