import ScopedScript.Proofs.Syntax.ExpressionSoundness
import ScopedScript.Proofs.Syntax.Flattening
import ScopedScript.Proofs.Syntax.TreeOfDerivation

/-!
# Flattened expressions are read back

The tokens that make up an expression that is read are those that the expression is flattened to,
and it respects the levels of operators. Any expression that respects them is read from the tokens
that it is flattened to, up to the numbers of its references. So reading inverts flattening.
-/

namespace ScopedScript

/-- Tokens are what an expression is flattened to that respects the levels, holds together at least
as tightly as `n`, and has its references numbered from `i` on up to `j`. -/
structure Expr.Flat (n : Nat) (e : Expr) (i : NodeId) (w : List Token) (j : NodeId) : Prop where
  spells : Spells w e.flatten
  respects : e.Respects
  strength : n ≤ e.strength
  numbered : e.numberedFrom i = e
  next : j = i + e.occurrences.length

/-- Tokens are what arguments are flattened to that respect the levels and have their references
numbered from `i` on up to `j`. -/
structure Expr.FlatAll (es : List Expr) (i : NodeId) (w : List Token) (j : NodeId) : Prop where
  spells : Spells w (Expr.flattenAll es)
  respects : Expr.RespectAll es
  numbered : Expr.numberedAllFrom i es = es
  next : j = i + (Expr.occurrencesAll es).length

namespace Expr.Flat

variable {n m : Nat} {e left right callee object value : Expr} {es : List Expr}
variable {i j k : NodeId} {v w : List Token} {t u : Token}

theorem mono (h : e.Flat n i w j) (hle : m ≤ n) : e.Flat m i w j :=
  { h with strength := Nat.le_trans hle h.strength }

/-- An operator with two operands makes an expression of its level. -/
theorem apply {op : Operator} (hleft : left.Flat op.level.strength i v k)
    (ht : t.kind = op.kind) (hright : right.Flat (op.level.strength + 1) k w j) :
    (op.apply t.line left right).Flat op.level.strength i (v ++ t :: w) j := by
  have hspells := hleft.spells.append (.cons (Token.shows_onLine.mpr ⟨ht, rfl⟩) hright.spells)
  have hnumbered := hright.numbered
  have hnext := hright.next
  rw [hleft.next] at hnumbered hnext
  rw [Nat.add_assoc, ← List.length_append] at hnext
  obtain op | op := op
  all_goals exact {
    spells := hspells
    respects := ⟨⟨hleft.strength, hright.strength⟩, hleft.respects, hright.respects⟩
    strength := Nat.le_refl _
    numbered := by rw [Operator.apply, numberedFrom, hleft.numbered, hnumbered]
    next := hnext }

theorem unary {op : UnaryOp} (ht : t.kind = op.kind) (h : e.Flat 8 i w j) :
    (Expr.unary op t.line e).Flat 8 i (t :: w) j where
  spells := .cons (Token.shows_onLine.mpr ⟨ht, rfl⟩) h.spells
  respects := ⟨h.strength, h.respects⟩
  strength := Nat.le_refl 8
  numbered := by rw [numberedFrom, h.numbered]
  next := h.next

theorem get (h : object.Flat 9 i w j) (ht : t.kind = .mark .dot) (hu : u.kind = .identifier) :
    (Expr.get object u.toName).Flat 9 i (w ++ [t, u]) j where
  spells := h.spells.append
    (.cons (Token.shows_plain.mpr ht) (.cons (Token.shows_word.mpr ⟨hu, rfl⟩) .nil))
  respects := ⟨h.strength, h.respects⟩
  strength := Nat.le_refl 9
  numbered := by rw [numberedFrom, h.numbered]
  next := h.next

theorem call (h : callee.Flat 9 i v k) (ht : t.kind = .mark .leftParen)
    (hlength : es.length ≤ maxArity) (hes : FlatAll es k w j) (hu : u.kind = .mark .rightParen) :
    (Expr.call callee u.line es).Flat 9 i (v ++ t :: w ++ [u]) j where
  spells := (h.spells.append (.cons (Token.shows_plain.mpr ht) hes.spells)).append
    (.cons (Token.shows_onLine.mpr ⟨hu, rfl⟩) .nil)
  respects := ⟨h.strength, h.respects, hlength, hes.respects⟩
  strength := Nat.le_refl 9
  numbered := by
    have hnumbered := hes.numbered
    rw [h.next] at hnumbered
    rw [numberedFrom, h.numbered, hnumbered]
  next := by rw [hes.next, h.next, Nat.add_assoc, ← List.length_append]; rfl

theorem grouping (ht : t.kind = .mark .leftParen) (h : e.Flat 1 i w j)
    (hu : u.kind = .mark .rightParen) : (Expr.grouping e).Flat 9 i (t :: w ++ [u]) j where
  spells := .cons (Token.shows_plain.mpr ht)
    (h.spells.append (.cons (Token.shows_plain.mpr hu) .nil))
  respects := h.respects
  strength := Nat.le_succ 9
  numbered := by rw [numberedFrom, h.numbered]
  next := h.next

/-- An equals sign makes an assignment of a name. -/
theorem assign {ref : Reference} (h : (Expr.name ref).Flat n i w k) (ht : t.kind = .mark .equal)
    (hvalue : value.Flat 1 k v j) : (Expr.assign ref value).Flat 1 i (w ++ t :: v) j where
  spells := h.spells.append (.cons (Token.shows_plain.mpr ht) hvalue.spells)
  respects := hvalue.respects
  strength := Nat.le_refl 1
  numbered := by
    have hname := Expr.name.inj h.numbered
    have hnumbered := hvalue.numbered
    rw [h.next] at hnumbered
    change Expr.assign ⟨i, ref.name⟩ (value.numberedFrom (i + 1)) = _
    rw [hname]
    exact congrArg (Expr.assign ref) hnumbered
  next := by
    rw [hvalue.next, h.next, Nat.add_assoc, ← List.length_append]
    rfl

/-- An equals sign makes an assignment of a property. -/
theorem set {property : Name} (h : (Expr.get object property).Flat n i w k)
    (ht : t.kind = .mark .equal) (hvalue : value.Flat 1 k v j) :
    (Expr.set object property value).Flat 1 i (w ++ t :: v) j where
  spells := by
    have hspells := h.spells.append (.cons (Token.shows_plain.mpr ht) hvalue.spells)
    rwa [flatten, List.append_assoc] at hspells
  respects := ⟨h.respects.1, h.respects.2, hvalue.respects⟩
  strength := Nat.le_refl 1
  numbered := by
    have hobject := (Expr.get.inj h.numbered).1
    have hnumbered := hvalue.numbered
    rw [h.next] at hnumbered
    rw [numberedFrom, hobject]
    exact congrArg (Expr.set object property) hnumbered
  next := by rw [hvalue.next, h.next, Nat.add_assoc, occurrences, ← List.length_append]; rfl

end Expr.Flat

namespace Expr.FlatAll

variable {e : Expr} {es : List Expr} {i j k : NodeId} {v w : List Token} {t : Token}

theorem nil (i : NodeId) : FlatAll [] i [] i := ⟨.nil, trivial, rfl, rfl⟩

theorem single (h : e.Flat 1 i w j) : FlatAll [e] i w j where
  spells := h.spells
  respects := ⟨h.respects, trivial⟩
  numbered := congrArg (fun e => [e]) h.numbered
  next := by rw [h.next, occurrencesAll, occurrencesAll, List.append_nil]

theorem cons (h : e.Flat 1 i w k) (ht : t.kind = .mark .comma) (hes : FlatAll es k v j)
    (hne : es ≠ []) : FlatAll (e :: es) i (w ++ t :: v) j where
  spells := by
    obtain ⟨e', es, rfl⟩ := List.exists_cons_of_ne_nil hne
    exact h.spells.append (.cons (Token.shows_plain.mpr ht) hes.spells)
  respects := ⟨h.respects, hes.respects⟩
  numbered := by
    have hnumbered := hes.numbered
    rw [h.next] at hnumbered
    rw [numberedAllFrom, h.numbered, hnumbered]
  next := by rw [hes.next, h.next, Nat.add_assoc, occurrencesAll, List.length_append]

end Expr.FlatAll

/-- Tokens that a phrase is written as are what its expression is flattened to. What only goes on
with an expression is so after whatever the expression before it is written as. -/
def ExprPhrase.Flat (i : NodeId) (w : List Token) (j : NodeId) : ExprPhrase → Prop
  | expression e => e.Flat 1 i w j
  | level l e => e.Flat l.strength i w j
  | operand l e => e.Flat (l.strength + 1) i w j
  | operations l left e => ∀ a v, left.Flat l.strength a v i → e.Flat l.strength a (v ++ w) j
  | unary e => e.Flat 8 i w j
  | calls callee e => ∀ a v, callee.Flat 9 a v i → e.Flat 9 a (v ++ w) j
  | arguments es => es ≠ [] ∧ Expr.FlatAll es i w j
  | primary e => e.Flat 9 i w j

/-- Whatever an expression is written as is what it is flattened to. -/
theorem WrittenExpr.flat {p : ExprPhrase} {i j : NodeId} {w : List Token}
    (h : WrittenExpr p i w j) : p.Flat i w j := by
  induction h with
  | plain _ ih => exact ih.mono (by decide)
  | assign _ ht _ ih ihvalue => exact ih.assign ht ihvalue
  | set _ ht _ ih ihvalue => exact ih.set ht ihvalue
  | level _ _ ih ihrest => exact ihrest _ _ (ih.mono (Nat.le_succ _))
  | tighter hl _ ih =>
      rw [ExprPhrase.Flat, ← Level.strength_tighter hl]
      exact ih
  | tightest hl _ ih =>
      rw [ExprPhrase.Flat, Level.strength_tightest hl]
      exact ih
  | noOperation | noCall =>
      intro a v hleft
      rwa [List.append_nil]
  | operation hop _ _ ih ihrest =>
      intro a v hleft
      obtain ⟨rfl, ht⟩ := Level.operator?_eq_some.mp hop
      have hwhole := ihrest _ _ (hleft.apply ht ih)
      rwa [List.append_assoc] at hwhole
  | prefixed hop _ ih => exact ih.unary (UnaryOp.ofKind?_eq_some.mp hop)
  | called _ _ ih ihcalls => exact (ihcalls _ _ ih).mono (Nat.le_succ 8)
  | callWithout ht hu _ ih =>
      intro a v hcallee
      have hwhole := ih _ _ (hcallee.call ht (Nat.zero_le _) (.nil _) hu)
      simpa using hwhole
  | callWith ht hlength _ hu _ iharguments ih =>
      intro a v hcallee
      have hwhole := ih _ _ (hcallee.call ht hlength iharguments.2 hu)
      simpa using hwhole
  | property ht hu _ ih =>
      intro a v hcallee
      have hwhole := ih _ _ (hcallee.get ht hu)
      simpa using hwhole
  | lastArgument _ ih => exact ⟨List.cons_ne_nil _ _, .single ih⟩
  | argument _ ht _ ih ihrest => exact ⟨List.cons_ne_nil _ _, .cons ih ht ihrest.2 ihrest.1⟩
  | literal hvalue =>
      exact ⟨.cons (Token.shows_plain.mpr (Literal.ofKind?_iff.mp hvalue)) .nil, trivial,
        Nat.le_succ 9, rfl, rfl⟩
  | inherited ht hu hv =>
      exact ⟨.cons (Token.shows_onLine.mpr ⟨ht, rfl⟩) (.cons (Token.shows_plain.mpr hu)
        (.cons (Token.shows_word.mpr ⟨hv, rfl⟩) .nil)), trivial, Nat.le_succ 9, rfl, rfl⟩
  | receiver ht =>
      exact ⟨.cons (Token.shows_onLine.mpr ⟨ht, rfl⟩) .nil, trivial, Nat.le_succ 9, rfl, rfl⟩
  | name ht =>
      exact ⟨.cons (Token.shows_word.mpr ⟨ht, rfl⟩) .nil, trivial, Nat.le_succ 9, rfl, rfl⟩
  | grouping ht _ hu ih => exact ih.grouping ht hu

/-- An expression is written in each way that is open to one that holds together as tightly as `n`. -/
structure Expr.Writes (n : Nat) (e : Expr) (i : NodeId) (w : List Token) (j : NodeId) : Prop where
  expression : WrittenExpr (.expression e) i w j
  level : ∀ l : Level, l.strength ≤ n → WrittenExpr (.level l e) i w j
  operand : ∀ l : Level, l.strength < n → WrittenExpr (.operand l e) i w j
  unary : 8 ≤ n → WrittenExpr (.unary e) i w j
  call : 9 ≤ n → WrittenCall e i w j

namespace Expr.Writes

variable {n : Nat} {e : Expr} {i j : NodeId} {w : List Token}

theorem of_expression (h : WrittenExpr (.expression e) i w j) : e.Writes 1 i w j where
  expression := h
  level l hl := absurd l.two_le_strength (by omega)
  operand l hl := absurd l.two_le_strength (by omega)
  unary hn := absurd hn (by decide)
  call hn := absurd hn (by decide)

theorem of_level {l : Level} (h : WrittenExpr (.level l e) i w j) :
    e.Writes l.strength i w j := by
  have hlevel (l' : Level) (hle : l'.strength ≤ l.strength) : WrittenExpr (.level l' e) i w j := by
    rcases Nat.eq_or_lt_of_le hle with heq | hlt
    · rwa [Level.strength_inj.mp heq]
    · exact (h.operand_of_level hlt).level_of_operand
  have hle := l.strength_le
  exact {
    expression := .plain (hlevel .or l.two_le_strength)
    level := hlevel
    operand := fun l' hlt => h.operand_of_level hlt
    unary := fun hn => absurd hn (by omega)
    call := fun hn => absurd hn (by omega) }

theorem of_unary (h : WrittenExpr (.unary e) i w j) : e.Writes 8 i w j where
  expression := .plain (h.level_of_unary .or)
  level l _ := h.level_of_unary l
  operand l _ := h.operand_of_unary l
  unary _ := h
  call hn := absurd hn (by decide)

theorem of_call (h : WrittenCall e i w j) : e.Writes n i w j :=
  { of_unary h.unary with
    level := fun l _ => h.unary.level_of_unary l
    operand := fun l _ => h.unary.operand_of_unary l
    unary := fun _ => h.unary
    call := fun _ => h }

theorem of_primary (h : WrittenExpr (.primary e) i w j) : e.Writes n i w j :=
  of_call ⟨e, j, w, [], (List.append_nil w).symm, h, .noCall⟩

/-- An operator with two operands makes an expression of its level. -/
theorem apply {op : Operator} {left right : Expr} {m : Nat} {k : NodeId} {v : List Token}
    {t : Token} (hleft : left.Writes n i v k) (hn : op.level.strength ≤ n) (ht : t.kind = op.kind)
    (hright : right.Writes m k w j) (hm : op.level.strength < m) :
    (op.apply t.line left right).Writes op.level.strength i (v ++ t :: w) j := by
  have hlast : WrittenExpr (.operations op.level left (op.apply t.line left right)) k
      (t :: w ++ []) j :=
    .operation (Level.operator?_eq_some.mpr ⟨rfl, ht⟩) (hright.operand op.level hm) .noOperation
  -- the operations that the left operand is made of come before
  cases hleft.level op.level hn with
  | level hfirst hrest =>
      have hwhole := WrittenExpr.level hfirst (hrest.operations_trans hlast)
      rw [List.append_nil, ← List.append_assoc] at hwhole
      exact .of_level hwhole

theorem unary_apply {op : UnaryOp} {t : Token} (ht : t.kind = op.kind) (h : e.Writes n i w j)
    (hn : 8 ≤ n) : (Expr.unary op t.line e).Writes 8 i (t :: w) j :=
  .of_unary (.prefixed (UnaryOp.ofKind?_eq_some.mpr ht) (h.unary hn))

/-- A call or a property makes an expression that may be called in turn. -/
theorem called {callee : Expr} {m : Nat} {k : NodeId} {v : List Token} (h : callee.Writes n i v k)
    (hn : 9 ≤ n) (hcalls : WrittenExpr (.calls callee e) k w j) : e.Writes m i (v ++ w) j :=
  .of_call ((h.call hn).append hcalls)

end Expr.Writes

theorem Expr.length_numberedAllFrom (es : List Expr) (i : NodeId) :
    (Expr.numberedAllFrom i es).length = es.length := by
  induction es generalizing i with
  | nil => rfl
  | cons e es ih => rw [numberedAllFrom, List.length_cons, ih, List.length_cons]

mutual

/-- An expression that respects the levels is written as what it is flattened to. -/
theorem Expr.writes (e : Expr) {i : NodeId} {w : List Token} (hspells : Spells w e.flatten)
    (hrespects : e.Respects) :
    (e.numberedFrom i).Writes e.strength i w (i + e.occurrences.length) := by
  cases e with
  | literal value =>
      obtain ⟨t, rfl, ht⟩ := hspells.exists_single
      exact .of_primary (.literal (Literal.ofKind?_iff.mpr ht.kind_eq))
  | name ref =>
      obtain ⟨t, rfl, ht⟩ := hspells.exists_single
      obtain ⟨hkind, hname⟩ := Token.shows_word.mp ht
      rw [Expr.numberedFrom, ← hname]
      exact .of_primary (.name hkind)
  | receiver id line =>
      obtain ⟨t, rfl, ht⟩ := hspells.exists_single
      obtain ⟨hkind, rfl⟩ := Token.shows_onLine.mp ht
      exact .of_primary (.receiver hkind)
  | inherited id line method =>
      obtain ⟨t, _, rfl, ht, hrest⟩ := hspells.exists_cons
      obtain ⟨dot, _, rfl, hdot, hrest⟩ := hrest.exists_cons
      obtain ⟨u, rfl, hu⟩ := hrest.exists_single
      obtain ⟨hkind, rfl⟩ := Token.shows_onLine.mp ht
      obtain ⟨hword, rfl⟩ := Token.shows_word.mp hu
      exact .of_primary (.inherited hkind hdot.kind_eq hword)
  | grouping inner =>
      obtain ⟨_, _, rfl, hfront, hback⟩ := hspells.exists_append
      obtain ⟨opening, v, rfl, hopening, hv⟩ := hfront.exists_cons
      obtain ⟨closing, rfl, hclosing⟩ := hback.exists_single
      exact .of_primary (.grouping hopening.kind_eq (inner.writes hv hrespects).expression
        hclosing.kind_eq)
  | unary op line operand =>
      obtain ⟨t, v, rfl, ht, hv⟩ := hspells.exists_cons
      obtain ⟨hkind, rfl⟩ := Token.shows_onLine.mp ht
      exact .unary_apply hkind (operand.writes hv hrespects.2) hrespects.1
  | binary op line left right | logical op line left right =>
      obtain ⟨⟨hleft, hright⟩, hrespectsLeft, hrespectsRight⟩ := hrespects
      obtain ⟨v, _, rfl, hv, hrest⟩ := hspells.exists_append
      obtain ⟨t, u, rfl, ht, hu⟩ := hrest.exists_cons
      obtain ⟨hkind, rfl⟩ := Token.shows_onLine.mp ht
      rw [Expr.occurrences, List.length_append, ← Nat.add_assoc]
      exact (left.writes hv hrespectsLeft).apply hleft hkind (right.writes hu hrespectsRight) hright
  | assign ref value =>
      obtain ⟨t, _, rfl, ht, hrest⟩ := hspells.exists_cons
      obtain ⟨equal, v, rfl, hequal, hv⟩ := hrest.exists_cons
      obtain ⟨hkind, hname⟩ := Token.shows_word.mp ht
      have htarget : (Expr.name ⟨i, t.toName⟩).Writes 2 i [t] (i + 1) := .of_primary (.name hkind)
      rw [Expr.numberedFrom, ← hname, Expr.occurrences, List.length_cons,
        Nat.add_comm value.occurrences.length, ← Nat.add_assoc]
      exact .of_expression (.assign (htarget.level .or (Nat.le_refl 2)) hequal.kind_eq
        (value.writes hv hrespects).expression)
  | call callee line arguments =>
      obtain ⟨hcallee, hrespectsCallee, hlength, hrespectsArguments⟩ := hrespects
      obtain ⟨_, _, rfl, hfront, hback⟩ := hspells.exists_append
      obtain ⟨v, _, rfl, hv, hrest⟩ := hfront.exists_append
      obtain ⟨opening, u, rfl, hopening, hu⟩ := hrest.exists_cons
      obtain ⟨closing, rfl, hclosing⟩ := hback.exists_single
      obtain ⟨hkind, rfl⟩ := Token.shows_onLine.mp hclosing
      rw [List.append_assoc, Expr.occurrences, List.length_append, ← Nat.add_assoc]
      refine (callee.writes hv hrespectsCallee).called hcallee ?_
      cases arguments with
      | nil =>
          cases hu
          exact .callWithout hopening.kind_eq hkind .noCall
      | cons e es =>
          refine .callWith hopening.kind_eq ?_ (Expr.writesAll (e :: es) (List.cons_ne_nil e es)
            hu hrespectsArguments) hkind .noCall
          rwa [Expr.length_numberedAllFrom]
  | get object property =>
      obtain ⟨hobject, hrespectsObject⟩ := hrespects
      obtain ⟨v, _, rfl, hv, hrest⟩ := hspells.exists_append
      obtain ⟨dot, _, rfl, hdot, hrest⟩ := hrest.exists_cons
      obtain ⟨t, rfl, ht⟩ := hrest.exists_single
      obtain ⟨hkind, rfl⟩ := Token.shows_word.mp ht
      exact (object.writes hv hrespectsObject).called hobject
        (.property hdot.kind_eq hkind .noCall)
  | set object property value =>
      obtain ⟨hobject, hrespectsObject, hrespectsValue⟩ := hrespects
      obtain ⟨v, _, rfl, hv, hrest⟩ := hspells.exists_append
      obtain ⟨dot, _, rfl, hdot, hrest'⟩ := hrest.exists_cons
      obtain ⟨t, _, rfl, ht, hrest''⟩ := hrest'.exists_cons
      obtain ⟨equal, u, rfl, hequal, hu⟩ := hrest''.exists_cons
      obtain ⟨hkind, rfl⟩ := Token.shows_word.mp ht
      have htarget := (object.writes (i := i) hv hrespectsObject).called (m := 2) hobject
        (.property hdot.kind_eq hkind .noCall)
      have hwhole := WrittenExpr.set (htarget.level .or (Nat.le_refl 2)) hequal.kind_eq
        (value.writes hu hrespectsValue).expression
      rw [List.append_assoc] at hwhole
      rw [Expr.occurrences, List.length_append, ← Nat.add_assoc]
      exact .of_expression hwhole

theorem Expr.writesAll (es : List Expr) {i : NodeId} {w : List Token} (hne : es ≠ [])
    (hspells : Spells w (Expr.flattenAll es)) (hrespect : Expr.RespectAll es) :
    WrittenExpr (.arguments (Expr.numberedAllFrom i es)) i w
      (i + (Expr.occurrencesAll es).length) := by
  match es with
  | [] => exact (hne rfl).elim
  | [e] =>
      rw [Expr.occurrencesAll, Expr.occurrencesAll, List.append_nil]
      exact .lastArgument (e.writes hspells hrespect.1).expression
  | e :: e' :: es =>
      obtain ⟨v, _, rfl, hv, hrest⟩ := hspells.exists_append
      obtain ⟨comma, u, rfl, hcomma, hu⟩ := hrest.exists_cons
      rw [Expr.occurrencesAll, List.length_append, ← Nat.add_assoc]
      exact .argument (e.writes hv hrespect.1).expression hcomma.kind_eq
        (Expr.writesAll (e' :: es) (List.cons_ne_nil e' es) hu hrespect.2)

end

namespace Reader

variable {fuel : Nat} {c c' : Cursor} {e : Expr}

/-- The tokens that an expression is read from are what it is flattened to. -/
theorem flat_of_expression (h : Reader.expression fuel c = .ok e c') (hc : c.eof.kind = .eof) :
    ∃ w, Takes c w c' ∧ e.Flat 1 c.nextId w c'.nextId := by
  obtain ⟨w, htakes, hwritten⟩ := (exprReadersSound fuel).expression h hc
  exact ⟨w, htakes, hwritten.flat⟩

/-- An expression that respects the levels is read from what it is flattened to. -/
theorem expression_of_spells {w rest : List Token} {eof : Token} {i : NodeId}
    (hspells : Spells w e.flatten) (hrespects : e.Respects)
    (hend : (Cursor.mk rest eof i).peek.kind.strength = 0) (hfuel : 16 * w.length ≤ fuel) :
    Reader.expression fuel ⟨w ++ rest, eof, i⟩ =
      .ok (e.numberedFrom i) ⟨rest, eof, i + e.occurrences.length⟩ :=
  (e.writes hspells hrespects).expression.readable fuel eof rest hend hfuel

end Reader

/-- No two expressions that respect the levels are flattened to the same tokens, but for the numbers
of their references. -/
theorem Expr.numberedFrom_eq_of_flatten_eq {e e' : Expr} (he : e.Respects) (he' : e'.Respects)
    (h : e.flatten = e'.flatten) (i : NodeId) : e.numberedFrom i = e'.numberedFrom i := by
  let w := e.flatten.map Glyph.token
  have hread {e : Expr} (hspells : Spells w e.flatten) (he : e.Respects) :
      Reader.expression (16 * w.length) ⟨w ++ [], ⟨.eof, "", 0⟩, i⟩ =
        .ok (e.numberedFrom i) ⟨[], ⟨.eof, "", 0⟩, i + e.occurrences.length⟩ :=
    Reader.expression_of_spells hspells he rfl (Nat.le_refl _)
  have hsame := (hread (.token e.flatten) he).symm.trans (hread (h ▸ .token e.flatten) he')
  exact (Outcome.ok.inj hsame).1

/-- Reading expressions inverts flattening them. Whatever expression is read, the tokens taken for
it are what it is flattened to, it respects the levels of operators, and its references are numbered
from left to right with the next numbers. Conversely, an expression that respects the levels is read
from any tokens that are what it is flattened to, whatever comes after them that does not go on with
an expression, and it is the same one but for the numbers of its references. -/
theorem Reader.expression_inverts_flatten :
    (∀ fuel c e c', Reader.expression fuel c = .ok e c' → c.eof.kind = .eof →
      (∃ w, c.rest = w ++ c'.rest ∧ c'.eof = c.eof ∧ Spells w e.flatten) ∧ e.Respects ∧
        e.occurrences.map Occurrence.id = List.range' c.nextId e.occurrences.length ∧
        c'.nextId = c.nextId + e.occurrences.length) ∧
    (∀ (e : Expr) w rest eof i fuel, e.Respects → Spells w e.flatten →
      (Cursor.mk rest eof i).peek.kind.strength = 0 → 16 * w.length ≤ fuel →
      Reader.expression fuel ⟨w ++ rest, eof, i⟩ =
        .ok (e.numberedFrom i) ⟨rest, eof, i + e.occurrences.length⟩) ∧
    ∀ (e : Expr) i, (e.numberedFrom i).flatten = e.flatten ∧
      (e.numberedFrom i).occurrences.map Occurrence.id = List.range' i e.occurrences.length ∧
      (e.occurrences.map Occurrence.id = List.range' i e.occurrences.length →
        e.numberedFrom i = e) := by
  refine ⟨fun fuel c e c' h hc => ?_, fun e w rest eof i fuel hrespects hspells hend hfuel => ?_,
    fun e i => ?_⟩
  · obtain ⟨w, htakes, hflat⟩ := flat_of_expression h hc
    have hids := e.ids_numberedFrom c.nextId
    rw [hflat.numbered] at hids
    exact ⟨⟨w, htakes.rest_eq, htakes.eof_eq, hflat.spells⟩, hflat.respects, hids, hflat.next⟩
  · exact expression_of_spells hspells hrespects hend hfuel
  · exact ⟨e.flatten_numberedFrom i, e.ids_numberedFrom i, e.numberedFrom_eq_self⟩

/-- For example, of `a.b = -c + d * e(nil, f) or this`, written before a semicolon. -/
theorem Reader.expression_inverts_flatten_assignment :
    let e : Expr := .set (.name ⟨9, ⟨"a", 1⟩⟩) ⟨"b", 1⟩ (.logical .or 1
      (.binary .add 1 (.unary .negate 1 (.name ⟨9, ⟨"c", 1⟩⟩))
        (.binary .multiply 1 (.name ⟨9, ⟨"d", 1⟩⟩)
          (.call (.name ⟨9, ⟨"e", 1⟩⟩) 1 [.literal .nil, .name ⟨9, ⟨"f", 1⟩⟩])))
      (.receiver 9 1))
    let w := e.flatten.map Glyph.token
    let rest : List Token := [⟨.mark .semicolon, ";", 1⟩]
    Reader.expression 272 ⟨w ++ rest, ⟨.eof, "", 1⟩, 3⟩ =
        .ok (e.numberedFrom 3) ⟨rest, ⟨.eof, "", 1⟩, 9⟩ ∧
      (e.numberedFrom 3).Respects ∧
      (e.numberedFrom 3).occurrences.map Occurrence.id = [3, 4, 5, 6, 7, 8] := by
  intro e w rest
  have hrespects : e.Respects := by
    simp [e, Expr.Respects, Expr.RespectAll, Expr.strength, Operator.level, Level.strength,
      maxArity]
  have hread := expression_inverts_flatten.2.1 e w rest ⟨.eof, "", 1⟩ 3 272 hrespects
    (Spells.token _) rfl (by decide)
  obtain ⟨_, hrespects', hids, _⟩ := expression_inverts_flatten.1 272 _ _ _ hread rfl
  exact ⟨hread, hrespects', hids⟩

end ScopedScript
