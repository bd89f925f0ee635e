import ScopedScript.Proofs.Syntax.Cursor

/-!
# What expressions are written as is read as the same expressions

The readers of expressions are greedy, so they give back what was written only if the token after
it does not go on with it. Operators are ranked by how tightly they bind, and a phrase ends before
every token that binds less tightly than all that the phrase may be made of.
-/

namespace ScopedScript

/-- How tightly a token binds to the expression before it; `0` if it does not go on with it. -/
def Kind.strength : Kind → Nat
  | .mark .equal => 1
  | .keyword .orWord => 2
  | .keyword .andWord => 3
  | .mark .bangEqual | .mark .equalEqual => 4
  | .mark .greater | .mark .greaterEqual | .mark .less | .mark .lessEqual => 5
  | .mark .minus | .mark .plus => 6
  | .mark .slash | .mark .star => 7
  | .mark .leftParen | .mark .dot => 8
  | _ => 0

/-- How tightly the operators of a level bind. -/
def Level.strength : Level → Nat
  | or => 2
  | and => 3
  | equality => 4
  | comparison => 5
  | sum => 6
  | product => 7

theorem Level.operator?_eq_none {l : Level} {k : Kind} (h : k.strength ≠ l.strength) :
    l.operator? k = none := by
  cases k with
  | mark m => cases l <;> cases m <;> first | rfl | exact (h rfl).elim
  | keyword w => cases l <;> cases w <;> first | rfl | exact (h rfl).elim
  | identifier | string _ | number _ | eof => cases l <;> rfl

theorem Level.strength_of_operator? {l : Level} {k : Kind} {op : Operator}
    (h : l.operator? k = some op) : k.strength = l.strength := by
  by_cases hne : k.strength = l.strength
  · exact hne
  · rw [Level.operator?_eq_none hne] at h
    cases h

theorem Level.strength_tighter {l l' : Level} (h : l.tighter? = some l') :
    l'.strength = l.strength + 1 := by
  cases l <;> cases h <;> rfl

theorem Level.strength_tightest {l : Level} (h : l.tighter? = none) : l.strength = 7 := by
  cases l with
  | product => rfl
  | _ => cases h

theorem Level.strength_inj {l l' : Level} : l.strength = l'.strength ↔ l = l' := by
  cases l <;> cases l' <;> decide

theorem Level.two_le_strength (l : Level) : 2 ≤ l.strength := by
  cases l <;> decide

theorem Level.strength_le (l : Level) : l.strength ≤ 7 := by
  cases l <;> decide

/-- Whether an expression may begin with a kind of token. -/
def Kind.startsExpression : Kind → Bool
  | .mark .bang | .mark .minus | .mark .leftParen => true
  | .keyword .trueWord | .keyword .falseWord | .keyword .nilWord => true
  | .keyword .thisWord | .keyword .superWord => true
  | .identifier | .string _ | .number _ => true
  | _ => false

theorem UnaryOp.startsExpression {k : Kind} {op : UnaryOp} (h : UnaryOp.ofKind? k = some op) :
    k.startsExpression = true := by
  unfold UnaryOp.ofKind? at h
  split at h
  · rfl
  · rfl
  · cases h

theorem Literal.ofKind?_eq_some {k : Kind} {value : Literal} (h : Literal.ofKind? k = some value) :
    (k = .keyword .falseWord ∧ value = .bool false) ∨
      (k = .keyword .trueWord ∧ value = .bool true) ∨ (k = .keyword .nilWord ∧ value = .nil) ∨
      (∃ x, k = .number x ∧ value = .number x) ∨
      ∃ text, k = .string text ∧ value = .string text := by
  unfold Literal.ofKind? at h
  split at h <;> cases h <;> simp

theorem Literal.startsExpression {k : Kind} {value : Literal}
    (h : Literal.ofKind? k = some value) : k.startsExpression = true := by
  obtain ⟨rfl, _⟩ | ⟨rfl, _⟩ | ⟨rfl, _⟩ | ⟨_, rfl, _⟩ | ⟨_, rfl, _⟩ := Literal.ofKind?_eq_some h <;>
    rfl

/-- The first of some tokens is of a sort that `p` tells. -/
def Starts (p : Kind → Bool) (w : List Token) : Prop :=
  ∃ t u, w = t :: u ∧ p t.kind = true

namespace Starts

variable {p : Kind → Bool} {w : List Token}

theorem append (h : Starts p w) (v : List Token) : Starts p (w ++ v) := by
  obtain ⟨t, u, rfl, ht⟩ := h
  exact ⟨t, u ++ v, rfl, ht⟩

theorem length_pos (h : Starts p w) : 0 < w.length := by
  obtain ⟨t, u, rfl, _⟩ := h
  exact Nat.succ_pos _

theorem mono {q : Kind → Bool} (h : Starts p w) (hpq : ∀ k, p k = true → q k = true) :
    Starts q w := by
  obtain ⟨t, u, rfl, ht⟩ := h
  exact ⟨t, u, rfl, hpq _ ht⟩

theorem peek_kind_ne {rest : List Token} {eof : Token} {i : NodeId} (h : Starts p w) {k : Kind}
    (hk : p k = false) : (Cursor.mk (w ++ rest) eof i).peek.kind ≠ k := by
  obtain ⟨t, u, rfl, ht⟩ := h
  rintro rfl
  exact Bool.false_ne_true (hk.symm.trans ht)

end Starts

namespace ExprPhrase

/-- The phrase only goes on with an expression. -/
def IsTail : ExprPhrase → Prop
  | operations _ _ _ | calls _ _ => True
  | _ => False

/-- A phrase does not go on with a kind of token. -/
def EndsBefore (k : Kind) : ExprPhrase → Prop
  | expression _ => k.strength = 0
  | level l _ | operations l _ _ => k.strength < l.strength
  | operand l _ => k.strength ≤ l.strength
  | unary _ | calls _ _ => k.strength < 8
  | arguments _ => k.strength = 0 ∧ k ≠ .mark .comma
  | primary _ => True

/-- The fuel is enough to read a phrase of `n` tokens. Between two tokens an expression goes down
through all the levels, which takes fewer than sixteen calls. -/
def Affords (fuel n : Nat) : ExprPhrase → Prop
  | expression _ => 16 * n ≤ fuel
  | level l _ => 16 * n + 3 ≤ fuel + 2 * l.strength
  | operand l _ => 16 * n + 2 ≤ fuel + 2 * l.strength
  | unary _ => 16 * n ≤ fuel + 13
  | operations _ _ _ | calls _ _ | arguments _ => 16 * n + 1 ≤ fuel
  | primary _ => 16 * n ≤ fuel + 14

/-- With a given fuel, the reader of a sort of phrase reads the phrase between two places. -/
def IsRead (fuel : Nat) (c c' : Cursor) : ExprPhrase → Prop
  | expression e => Reader.expression fuel c = .ok e c'
  | level l e => Reader.level fuel l c = .ok e c'
  | operand l e => Reader.operand fuel l c = .ok e c'
  | operations l left e => Reader.operations fuel l left c = .ok e c'
  | unary e => Reader.unary fuel c = .ok e c'
  | calls callee e => Reader.calls fuel callee c = .ok e c'
  | arguments es => ∀ count, count + es.length ≤ maxArity →
      Reader.arguments fuel count c = .ok es c'
  | primary e => Reader.primary fuel c = .ok e c'

end ExprPhrase

/-- Every phrase that does not go on with an expression begins like one. -/
theorem WrittenExpr.starts {p : ExprPhrase} {i j : NodeId} {w : List Token}
    (h : WrittenExpr p i w j) (hp : ¬p.IsTail) : Starts Kind.startsExpression w := by
  induction h with
  | plain _ ih | tighter _ _ ih | tightest _ _ ih | lastArgument _ ih => exact ih id
  | assign _ _ _ ih _ | set _ _ _ ih _ | argument _ _ _ ih _ => exact (ih id).append _
  | level _ _ ih _ | called _ _ ih _ => exact (ih id).append _
  | noOperation | operation | noCall | callWithout | callWith | property =>
      exact (hp trivial).elim
  | @prefixed t op _ _ w _ hop _ _ => exact ⟨t, w, rfl, UnaryOp.startsExpression hop⟩
  | @literal t value _ hvalue => exact ⟨t, [], rfl, Literal.startsExpression hvalue⟩
  | @inherited t u v _ ht _ _ => exact ⟨t, [u, v], rfl, by rw [ht]; rfl⟩
  | @receiver t _ ht | @name t _ ht => exact ⟨t, [], rfl, by rw [ht]; rfl⟩
  | @grouping t u _ _ w _ ht _ _ _ => exact ⟨t, w ++ [u], rfl, by rw [ht]; rfl⟩

namespace ExprPhrase

open Reader

variable {fuel : Nat} {eof : Token} {i j k : NodeId} {v w rest : List Token}

/-- A phrase that has been written is read by its reader, if the token after it does not go on with
it and there is enough fuel. -/
def Readable (p : ExprPhrase) (i : NodeId) (w : List Token) (j : NodeId) : Prop :=
  ∀ fuel eof rest, p.EndsBefore (Cursor.mk rest eof j).peek.kind → p.Affords fuel w.length →
    p.IsRead fuel ⟨w ++ rest, eof, i⟩ ⟨rest, eof, j⟩

/-- A phrase ends before the next token if it ends before tokens of this kind. -/
theorem endsBefore_peek_cons {p : ExprPhrase} {t : Token} {kind : Kind} (ht : t.kind = kind)
    (h : p.EndsBefore kind) : p.EndsBefore (Cursor.mk (t :: rest) eof j).peek.kind := by
  subst ht
  exact h

theorem Affords.exists_succ {p : ExprPhrase} {n : Nat} (h : p.Affords fuel n)
    (hn : 0 < n ∨ p.IsTail) : ∃ fuel', fuel = fuel' + 1 := by
  refine ⟨fuel - 1, ?_⟩
  cases p with
  | level l _ | operand l _ =>
      -- on the way down the levels no token is read, but the bound on their number leaves a call
      have hstrength := l.strength_le
      simp only [Affords, IsTail, or_false] at h hn
      omega
  | operations _ _ _ | calls _ _ =>
      simp only [Affords] at h
      omega
  | _ =>
      simp only [Affords, IsTail, or_false] at h hn
      omega

theorem readable_plain {e : Expr} (h : (level .or e).Readable i w j) (hw : 0 < w.length) :
    (expression e).Readable i w j := by
  intro fuel eof rest hend hfuel
  obtain ⟨fuel, rfl⟩ := hfuel.exists_succ (Or.inl hw)
  simp only [EndsBefore, Affords] at hend hfuel
  have hlevel := h fuel eof rest (by simp [EndsBefore, Level.strength, hend])
    (by simp only [Affords, Level.strength]; omega)
  -- an equals sign would have gone on with the expression
  have haccept : accept .equal ⟨rest, eof, j⟩ = .ok false ⟨rest, eof, j⟩ := by
    apply accept_of_ne
    intro hequal
    rw [hequal] at hend
    cases hend
  change Reader.expression (fuel + 1) _ = _
  unfold Reader.expression
  rw [Run.bind_of_ok hlevel, Run.bind_of_ok (Run.get_apply _), Run.bind_of_ok haccept]
  rfl

/-- An equals sign asks of the expression before it whether it can be assigned to. -/
theorem expression_of_equal {target value : Expr} {t : Token}
    (htarget : (level .or target).Readable i w k) (hw : 0 < w.length)
    (ht : t.kind = .mark .equal) (hvalue : (expression value).Readable k v j)
    (hend : (Cursor.mk rest eof j).peek.kind.strength = 0)
    (hfuel : 16 * (w ++ t :: v).length ≤ fuel + 1) :
    Reader.expression (fuel + 1) ⟨w ++ t :: v ++ rest, eof, i⟩ =
      (match target with
        | .name ref => return .assign ref value
        | .get object property => return .set object property value
        | _ => Run.fail ((Cursor.mk (t :: v ++ rest) eof k).blame .invalidTarget) : Reader Expr)
      ⟨rest, eof, j⟩ := by
  rw [List.length_append, List.length_cons] at hfuel
  have hlevel := htarget fuel eof (t :: v ++ rest)
    (endsBefore_peek_cons ht Nat.one_lt_two)
    (by simp only [Affords, Level.strength]; omega)
  have hexpression := hvalue fuel eof rest hend (by simp only [Affords]; omega)
  unfold Reader.expression
  -- the equals sign is found only after the expression in front of it has been read
  rw [List.append_assoc, Run.bind_of_ok hlevel, Run.bind_of_ok (Run.get_apply _), List.cons_append,
    Run.bind_of_ok (accept_cons ht), if_pos rfl, Run.bind_of_ok hexpression]
  cases target <;> rfl

theorem readable_assign {ref : Reference} {value : Expr} {t : Token}
    (htarget : (level .or (.name ref)).Readable i w k) (hw : 0 < w.length)
    (ht : t.kind = .mark .equal) (hvalue : (expression value).Readable k v j) :
    (expression (.assign ref value)).Readable i (w ++ t :: v) j := by
  intro fuel eof rest hend hfuel
  obtain ⟨fuel, rfl⟩ := hfuel.exists_succ (Or.inl (by rw [List.length_append]; omega))
  exact expression_of_equal htarget hw ht hvalue hend hfuel

theorem readable_set {object value : Expr} {name : Name} {t : Token}
    (htarget : (level .or (.get object name)).Readable i w k) (hw : 0 < w.length)
    (ht : t.kind = .mark .equal) (hvalue : (expression value).Readable k v j) :
    (expression (.set object name value)).Readable i (w ++ t :: v) j := by
  intro fuel eof rest hend hfuel
  obtain ⟨fuel, rfl⟩ := hfuel.exists_succ (Or.inl (by rw [List.length_append]; omega))
  exact expression_of_equal htarget hw ht hvalue hend hfuel

/-- What follows an operand binds no tighter than the level, be it an operator of the level or what
ends the phrase. -/
theorem strength_peek_le {l : Level} (hend : (Cursor.mk rest eof j).peek.kind.strength < l.strength)
    (hv : ∀ t u, v = t :: u → t.kind.strength = l.strength) :
    (Cursor.mk (v ++ rest) eof k).peek.kind.strength ≤ l.strength := by
  cases v with
  | nil => exact Nat.le_of_lt hend
  | cons t u => exact Nat.le_of_eq (hv t u rfl)

/-- An operand and operators after it that bind as tightly as the level. -/
theorem readable_level {l : Level} {left e : Expr} (hleft : (operand l left).Readable i w k)
    (hw : 0 < w.length) (hrest : (operations l left e).Readable k v j)
    (hv : ∀ t u, v = t :: u → t.kind.strength = l.strength) :
    (level l e).Readable i (w ++ v) j := by
  intro fuel eof rest hend hfuel
  rw [List.length_append] at hfuel
  obtain ⟨fuel, rfl⟩ := hfuel.exists_succ (Or.inl (by omega))
  have hstrength := l.strength_le
  simp only [EndsBefore, Affords] at hend hfuel
  have hoperand := hleft fuel eof (v ++ rest) (strength_peek_le hend hv)
    (by simp only [Affords]; omega)
  have hoperations := hrest fuel eof rest hend (by simp only [Affords]; omega)
  change Reader.level (fuel + 1) l _ = _
  unfold Reader.level
  rw [List.append_assoc, Run.bind_of_ok hoperand]
  exact hoperations

theorem readable_tighter {l l' : Level} {e : Expr} (hl : l.tighter? = some l')
    (h : (level l' e).Readable i w j) (hw : 0 < w.length) : (operand l e).Readable i w j := by
  intro fuel eof rest hend hfuel
  obtain ⟨fuel, rfl⟩ := hfuel.exists_succ (Or.inl hw)
  have hstrength := Level.strength_tighter hl
  simp only [EndsBefore, Affords] at hend hfuel
  have hlevel := h fuel eof rest (by simp only [EndsBefore]; omega) (by simp only [Affords]; omega)
  change Reader.operand (fuel + 1) l _ = _
  unfold Reader.operand
  rw [hl]
  exact hlevel

theorem readable_tightest {l : Level} {e : Expr} (hl : l.tighter? = none)
    (h : (unary e).Readable i w j) (hw : 0 < w.length) : (operand l e).Readable i w j := by
  intro fuel eof rest hend hfuel
  obtain ⟨fuel, rfl⟩ := hfuel.exists_succ (Or.inl hw)
  have hstrength := Level.strength_tightest hl
  simp only [EndsBefore, Affords] at hend hfuel
  have hunary := h fuel eof rest (by simp only [EndsBefore]; omega) (by simp only [Affords]; omega)
  change Reader.operand (fuel + 1) l _ = _
  unfold Reader.operand
  rw [hl]
  exact hunary

theorem readable_noOperation {l : Level} {left : Expr} :
    (operations l left left).Readable i [] i := by
  intro fuel eof rest hend hfuel
  obtain ⟨fuel, rfl⟩ := hfuel.exists_succ (Or.inr trivial)
  have hnone : l.operator? (Cursor.mk rest eof i).peek.kind = none :=
    Level.operator?_eq_none (Nat.ne_of_lt hend)
  change Reader.operations (fuel + 1) l left ⟨rest, eof, i⟩ = _
  unfold Reader.operations
  rw [Run.bind_of_ok (show Reader.peek _ = _ from rfl), hnone]
  rfl

theorem readable_operation {l : Level} {t : Token} {op : Operator} {left right e : Expr}
    (hop : l.operator? t.kind = some op) (hright : (operand l right).Readable i w k)
    (hw : 0 < w.length)
    (hrest : (operations l (op.apply t.line left right) e).Readable k v j)
    (hv : ∀ t u, v = t :: u → t.kind.strength = l.strength) :
    (operations l left e).Readable i (t :: w ++ v) j := by
  intro fuel eof rest hend hfuel
  obtain ⟨fuel, rfl⟩ := hfuel.exists_succ (Or.inr trivial)
  have hstrength := l.two_le_strength
  simp only [EndsBefore, Affords, List.length_append, List.length_cons] at hend hfuel
  have hoperand := hright fuel eof (v ++ rest) (strength_peek_le hend hv)
    (by simp only [Affords]; omega)
  have hoperations := hrest fuel eof rest hend (by simp only [Affords]; omega)
  change Reader.operations (fuel + 1) l left _ = _
  unfold Reader.operations
  rw [List.append_assoc, List.cons_append, Run.bind_of_ok peek_cons, hop]
  simp only
  rw [Run.bind_of_ok advance_cons, Run.bind_of_ok hoperand]
  exact hoperations

theorem readable_prefixed {t : Token} {op : UnaryOp} {e : Expr}
    (hop : UnaryOp.ofKind? t.kind = some op) (h : (unary e).Readable i w j) :
    (unary (.unary op t.line e)).Readable i (t :: w) j := by
  intro fuel eof rest hend hfuel
  obtain ⟨fuel, rfl⟩ := hfuel.exists_succ (Or.inl (Nat.succ_pos _))
  simp only [Affords, List.length_cons] at hfuel
  have hunary := h fuel eof rest hend (by simp only [Affords]; omega)
  change Reader.unary (fuel + 1) _ = _
  unfold Reader.unary
  rw [List.cons_append, Run.bind_of_ok peek_cons, hop]
  simp only
  rw [Run.bind_of_ok advance_cons, Run.bind_of_ok hunary]
  rfl

/-- An expression and the calls and properties after it. -/
theorem readable_called {callee e : Expr} (hcallee : (primary callee).Readable i w k)
    (hstarts : ∃ t u, w = t :: u ∧ UnaryOp.ofKind? t.kind = none)
    (hcalls : (calls callee e).Readable k v j) : (unary e).Readable i (w ++ v) j := by
  intro fuel eof rest hend hfuel
  obtain ⟨t, u, rfl, hop⟩ := hstarts
  obtain ⟨fuel, rfl⟩ := hfuel.exists_succ (Or.inl (Nat.succ_pos _))
  simp only [Affords, List.length_append, List.length_cons] at hfuel
  have hprimary := hcallee fuel eof (v ++ rest) trivial
    (by simp only [Affords, List.length_cons]; omega)
  have hrest := hcalls fuel eof rest hend (by simp only [Affords]; omega)
  have hpeek : Reader.peek ⟨t :: u ++ (v ++ rest), eof, i⟩ = .ok t _ := rfl
  change Reader.unary (fuel + 1) _ = _
  unfold Reader.unary
  rw [List.append_assoc, Run.bind_of_ok hpeek, hop]
  simp only
  rw [Run.bind_of_ok hprimary]
  exact hrest

theorem readable_noCall {callee : Expr} : (calls callee callee).Readable i [] i := by
  intro fuel eof rest hend hfuel
  obtain ⟨fuel, rfl⟩ := hfuel.exists_succ (Or.inr trivial)
  -- neither of the two marks that go on with calls is next
  have hne {m : Mark} (hm : (Kind.mark m).strength = 8) :
      (Cursor.mk rest eof i).peek.kind ≠ .mark m := by
    intro heq
    simp only [EndsBefore, heq, hm] at hend
    omega
  change Reader.calls (fuel + 1) callee ⟨rest, eof, i⟩ = _
  unfold Reader.calls
  rw [Run.bind_of_ok (accept_of_ne (hne rfl)), if_neg Bool.false_ne_true,
    Run.bind_of_ok (accept_of_ne (hne rfl)), if_neg Bool.false_ne_true]
  rfl

theorem readable_callWithout {t u : Token} {callee e : Expr} (ht : t.kind = .mark .leftParen)
    (hu : u.kind = .mark .rightParen)
    (hrest : (calls (.call callee u.line []) e).Readable i v j) :
    (calls callee e).Readable i (t :: u :: v) j := by
  intro fuel eof rest hend hfuel
  obtain ⟨fuel, rfl⟩ := hfuel.exists_succ (Or.inr trivial)
  simp only [Affords, List.length_cons] at hfuel
  have hcalls := hrest fuel eof rest hend (by simp only [Affords]; omega)
  change Reader.calls (fuel + 1) callee (.mk (t :: u :: (v ++ rest)) eof i) = _
  unfold Reader.calls
  rw [Run.bind_of_ok (accept_cons ht), if_pos rfl, Run.bind_of_ok (sees_cons hu), if_pos rfl,
    pure_bind]
  simp only
  rw [Run.bind_of_ok (expect_cons hu)]
  exact hcalls

theorem readable_callWith {t u : Token} {callee e : Expr} {es : List Expr}
    (ht : t.kind = .mark .leftParen) (hlength : es.length ≤ maxArity)
    (harguments : (arguments es).Readable i w k) (hstarts : Starts Kind.startsExpression w)
    (hu : u.kind = .mark .rightParen) (hrest : (calls (.call callee u.line es) e).Readable k v j) :
    (calls callee e).Readable i (t :: w ++ u :: v) j := by
  intro fuel eof rest hend hfuel
  obtain ⟨fuel, rfl⟩ := hfuel.exists_succ (Or.inr trivial)
  simp only [Affords, List.length_append, List.length_cons] at hfuel
  have hlist := harguments fuel eof (u :: v ++ rest)
    (endsBefore_peek_cons hu ⟨rfl, nofun⟩) (by simp only [Affords]; omega) 0 (by omega)
  have hcalls := hrest fuel eof rest hend (by simp only [Affords]; omega)
  -- the arguments begin like an expression, so the list is not taken for an empty one
  have hsees : sees .rightParen ⟨w ++ (u :: v ++ rest), eof, i⟩ = .ok false _ :=
    sees_of_ne (hstarts.peek_kind_ne rfl)
  change Reader.calls (fuel + 1) callee _ = _
  unfold Reader.calls
  rw [List.append_assoc, List.cons_append, Run.bind_of_ok (accept_cons ht), if_pos rfl,
    Run.bind_of_ok hsees, if_neg Bool.false_ne_true, Run.bind_of_ok hlist, List.cons_append]
  simp only
  rw [Run.bind_of_ok (expect_cons hu)]
  exact hcalls

theorem readable_property {t u : Token} {callee e : Expr} (ht : t.kind = .mark .dot)
    (hu : u.kind = .identifier) (hrest : (calls (.get callee u.toName) e).Readable i v j) :
    (calls callee e).Readable i (t :: u :: v) j := by
  intro fuel eof rest hend hfuel
  obtain ⟨fuel, rfl⟩ := hfuel.exists_succ (Or.inr trivial)
  simp only [Affords, List.length_cons] at hfuel
  have hcalls := hrest fuel eof rest hend (by simp only [Affords]; omega)
  have hparen : accept .leftParen ⟨t :: u :: (v ++ rest), eof, i⟩ = .ok false _ :=
    accept_of_ne (by simp [Cursor.peek, ht])
  change Reader.calls (fuel + 1) callee (.mk (t :: u :: (v ++ rest)) eof i) = _
  unfold Reader.calls
  rw [Run.bind_of_ok hparen, if_neg Bool.false_ne_true, Run.bind_of_ok (accept_cons ht), if_pos rfl,
    Run.bind_of_ok (identifier_cons hu)]
  exact hcalls

theorem readable_lastArgument {e : Expr} (h : (expression e).Readable i w j) (hw : 0 < w.length) :
    (arguments [e]).Readable i w j := by
  intro fuel eof rest hend hfuel count hcount
  obtain ⟨fuel, rfl⟩ := hfuel.exists_succ (Or.inl hw)
  simp only [EndsBefore, Affords] at hend hfuel
  have hexpression := h fuel eof rest hend.1 (by simp only [Affords]; omega)
  -- the limit is looked at before each argument is read
  have hroom : ¬maxArity ≤ count := by
    simp only [List.length_singleton] at hcount
    omega
  unfold Reader.arguments
  rw [if_neg hroom, Run.bind_of_ok hexpression, Run.bind_of_ok (accept_of_ne hend.2)]
  rfl

theorem readable_argument {e : Expr} {t : Token} {es : List Expr}
    (h : (expression e).Readable i w k) (ht : t.kind = .mark .comma)
    (hrest : (arguments es).Readable k v j) : (arguments (e :: es)).Readable i (w ++ t :: v) j := by
  intro fuel eof rest hend hfuel count hcount
  rw [List.length_append, List.length_cons] at hfuel
  obtain ⟨fuel, rfl⟩ := hfuel.exists_succ (Or.inl (by omega))
  simp only [Affords] at hfuel
  rw [List.length_cons] at hcount
  have hexpression := h fuel eof (t :: v ++ rest)
    (endsBefore_peek_cons ht rfl) (by simp only [Affords]; omega)
  have harguments := hrest fuel eof rest hend (by simp only [Affords]; omega) (count + 1)
    (by omega)
  unfold Reader.arguments
  rw [if_neg (by omega), List.append_assoc, Run.bind_of_ok hexpression, List.cons_append,
    Run.bind_of_ok (accept_cons ht), if_pos rfl, Run.bind_of_ok harguments]
  rfl

theorem readable_literal {t : Token} {value : Literal} (h : Literal.ofKind? t.kind = some value) :
    (primary (.literal value)).Readable i [t] i := by
  intro fuel eof rest _ hfuel
  obtain ⟨fuel, rfl⟩ := hfuel.exists_succ (Or.inl (Nat.succ_pos _))
  obtain ⟨kind, lexeme, line⟩ := t
  obtain ⟨rfl, rfl⟩ | ⟨rfl, rfl⟩ | ⟨rfl, rfl⟩ | ⟨_, rfl, rfl⟩ | ⟨_, rfl, rfl⟩ :=
    Literal.ofKind?_eq_some h <;> rfl

theorem readable_inherited {t u v : Token} (ht : t.kind = .keyword .superWord)
    (hu : u.kind = .mark .dot) (hv : v.kind = .identifier) :
    (primary (.inherited i t.line v.toName)).Readable i [t, u, v] (i + 1) := by
  intro fuel eof rest _ hfuel
  obtain ⟨fuel, rfl⟩ := hfuel.exists_succ (Or.inl (Nat.succ_pos _))
  obtain ⟨kind, lexeme, line⟩ := t
  obtain ⟨kind', lexeme', line'⟩ := u
  obtain ⟨kind'', lexeme'', line''⟩ := v
  cases ht
  cases hu
  cases hv
  rfl

theorem readable_receiver {t : Token} (ht : t.kind = .keyword .thisWord) :
    (primary (.receiver i t.line)).Readable i [t] (i + 1) := by
  intro fuel eof rest _ hfuel
  obtain ⟨fuel, rfl⟩ := hfuel.exists_succ (Or.inl (Nat.succ_pos _))
  obtain ⟨kind, lexeme, line⟩ := t
  cases ht
  rfl

theorem readable_name {t : Token} (ht : t.kind = .identifier) :
    (primary (.name ⟨i, t.toName⟩)).Readable i [t] (i + 1) := by
  intro fuel eof rest _ hfuel
  obtain ⟨fuel, rfl⟩ := hfuel.exists_succ (Or.inl (Nat.succ_pos _))
  obtain ⟨kind, lexeme, line⟩ := t
  cases ht
  rfl

theorem readable_grouping {t u : Token} {e : Expr} (ht : t.kind = .mark .leftParen)
    (h : (expression e).Readable i w j) (hu : u.kind = .mark .rightParen) :
    (primary (.grouping e)).Readable i (t :: w ++ [u]) j := by
  intro fuel eof rest _ hfuel
  obtain ⟨fuel, rfl⟩ := hfuel.exists_succ (Or.inl (Nat.succ_pos _))
  simp only [Affords, List.length_append, List.length_cons, List.length_nil] at hfuel
  have hexpression := h fuel eof (u :: rest) (endsBefore_peek_cons hu rfl)
    (by simp only [Affords]; omega)
  change Reader.primary (fuel + 1) _ = _
  unfold Reader.primary
  rw [List.append_assoc, List.cons_append, Run.bind_of_ok peek_cons, ht]
  simp only
  rw [Run.bind_of_ok advance_cons, List.singleton_append, Run.bind_of_ok hexpression,
    Run.bind_of_ok (expect_cons hu)]
  rfl

end ExprPhrase

/-- The operators of a level are what goes on with an operand of the level. -/
theorem WrittenExpr.operations_start {l : Level} {left e : Expr} {i j : NodeId} {v : List Token}
    (h : WrittenExpr (.operations l left e) i v j) (t : Token) (u : List Token) (hv : v = t :: u) :
    t.kind.strength = l.strength := by
  cases h with
  | noOperation => cases hv
  | operation hop _ _ =>
      cases hv
      exact Level.strength_of_operator? hop

/-- An expression without calls has no operator in front of it. -/
theorem WrittenExpr.primary_start {e : Expr} {i j : NodeId} {w : List Token}
    (h : WrittenExpr (.primary e) i w j) : ∃ t u, w = t :: u ∧ UnaryOp.ofKind? t.kind = none := by
  cases h with
  | @literal t value _ hvalue =>
      refine ⟨t, [], rfl, ?_⟩
      obtain ⟨hkind, _⟩ | ⟨hkind, _⟩ | ⟨hkind, _⟩ | ⟨_, hkind, _⟩ | ⟨_, hkind, _⟩ :=
        Literal.ofKind?_eq_some hvalue <;> rw [hkind] <;> rfl
  | @inherited t u v _ ht _ _ => exact ⟨t, [u, v], rfl, by rw [ht]; rfl⟩
  | @receiver t _ ht | @name t _ ht => exact ⟨t, [], rfl, by rw [ht]; rfl⟩
  | @grouping t u _ _ w _ ht _ _ => exact ⟨t, w ++ [u], rfl, by rw [ht]; rfl⟩

/-- Every phrase of an expression that has been written can be read. -/
theorem WrittenExpr.readable {p : ExprPhrase} {i j : NodeId} {w : List Token}
    (h : WrittenExpr p i w j) : p.Readable i w j := by
  induction h with
  | plain h ih => exact ExprPhrase.readable_plain ih (h.starts id).length_pos
  | assign h ht _ ih ihvalue =>
      exact ExprPhrase.readable_assign ih (h.starts id).length_pos ht ihvalue
  | set h ht _ ih ihvalue => exact ExprPhrase.readable_set ih (h.starts id).length_pos ht ihvalue
  | level h hrest ih ihrest =>
      exact ExprPhrase.readable_level ih (h.starts id).length_pos ihrest hrest.operations_start
  | tighter hl h ih => exact ExprPhrase.readable_tighter hl ih (h.starts id).length_pos
  | tightest hl h ih => exact ExprPhrase.readable_tightest hl ih (h.starts id).length_pos
  | noOperation => exact ExprPhrase.readable_noOperation
  | operation hop h hrest ih ihrest =>
      exact ExprPhrase.readable_operation hop ih (h.starts id).length_pos ihrest
        hrest.operations_start
  | prefixed hop _ ih => exact ExprPhrase.readable_prefixed hop ih
  | called h _ ih ihcalls => exact ExprPhrase.readable_called ih h.primary_start ihcalls
  | noCall => exact ExprPhrase.readable_noCall
  | callWithout ht hu _ ih => exact ExprPhrase.readable_callWithout ht hu ih
  | callWith ht hlength h hu _ ih ihcalls =>
      exact ExprPhrase.readable_callWith ht hlength ih (h.starts id) hu ihcalls
  | property ht hu _ ih => exact ExprPhrase.readable_property ht hu ih
  | lastArgument h ih => exact ExprPhrase.readable_lastArgument ih (h.starts id).length_pos
  | argument _ ht _ ih ihrest => exact ExprPhrase.readable_argument ih ht ihrest
  | literal h => exact ExprPhrase.readable_literal h
  | inherited ht hu hv => exact ExprPhrase.readable_inherited ht hu hv
  | receiver ht => exact ExprPhrase.readable_receiver ht
  | name ht => exact ExprPhrase.readable_name ht
  | grouping ht _ hu ih => exact ExprPhrase.readable_grouping ht ih hu

end ScopedScript
