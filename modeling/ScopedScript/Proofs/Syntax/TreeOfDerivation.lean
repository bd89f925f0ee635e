import ScopedScript.Proofs.Syntax.Derivation
import ScopedScript.Proofs.Syntax.ExpressionCompleteness

/-!
# What can be derived is what trees are written as

Every phrase of the grammar is what some tree is written as, whatever the numbers of its references
start from. Two productions do not fit the trees as they stand: a repetition grows at its end in
the grammar and at its beginning in a tree, and an `else` that the grammar gives to an outer `if`
belongs to the nearest one in a tree.
-/

namespace ScopedScript

open Grammar

namespace WrittenExpr

variable {i j k : NodeId} {v w : List Token} {l : Level} {left middle e : Expr}

theorem operations_trans (h : WrittenExpr (.operations l left middle) i v k)
    (hrest : WrittenExpr (.operations l middle e) k w j) :
    WrittenExpr (.operations l left e) i (v ++ w) j := by
  generalize hp : ExprPhrase.operations l left middle = p at h
  induction h generalizing left with
  | noOperation =>
      cases hp
      exact hrest
  | operation hop hright _ _ ih =>
      cases hp
      rw [List.append_assoc]
      exact .operation hop hright (ih hrest rfl)
  | _ => cases hp

theorem calls_trans (h : WrittenExpr (.calls left middle) i v k)
    (hrest : WrittenExpr (.calls middle e) k w j) :
    WrittenExpr (.calls left e) i (v ++ w) j := by
  generalize hp : ExprPhrase.calls left middle = p at h
  induction h generalizing left with
  | noCall =>
      cases hp
      exact hrest
  | callWithout ht hu _ ih =>
      cases hp
      exact .callWithout ht hu (ih hrest rfl)
  | callWith ht hlength harguments hu _ _ ih =>
      cases hp
      rw [List.append_assoc]
      exact .callWith ht hlength harguments hu (ih hrest rfl)
  | property ht hu _ ih =>
      cases hp
      exact .property ht hu (ih hrest rfl)
  | _ => cases hp

theorem level_of_operand (h : WrittenExpr (.operand l e) i w j) :
    WrittenExpr (.level l e) i w j := by
  simpa using WrittenExpr.level h .noOperation

/-- An expression of a level is an operand of each looser one. -/
theorem operand_of_level {l' : Level} (h : WrittenExpr (.level l e) i w j)
    (hlt : l'.strength < l.strength) : WrittenExpr (.operand l' e) i w j := by
  induction hd : l.strength - l'.strength generalizing l' with
  | zero => omega
  | succ d ih =>
      cases hnext : l'.tighter? with
      | none =>
          have hle := l.strength_le
          rw [Level.strength_tightest hnext] at hlt
          omega
      | some next =>
          have hstrength := Level.strength_tighter hnext
          by_cases heq : l = next
          · exact .tighter hnext (heq ▸ h)
          · have hne := mt Level.strength_inj.mp heq
            exact .tighter hnext (ih (by omega) (by omega)).level_of_operand

/-- An expression without operators is an operand of every level. -/
theorem operand_of_unary (h : WrittenExpr (.unary e) i w j) (l : Level) :
    WrittenExpr (.operand l e) i w j := by
  have hproduct : WrittenExpr (.operand .product e) i w j := .tightest rfl h
  rcases Nat.eq_or_lt_of_le l.strength_le with heq | hlt
  · have hl : l = .product := Level.strength_inj.mp heq
    rwa [hl]
  · exact hproduct.level_of_operand.operand_of_level hlt

/-- An expression without operators is one of every level. -/
theorem level_of_unary (h : WrittenExpr (.unary e) i w j) (l : Level) :
    WrittenExpr (.level l e) i w j := (h.operand_of_unary l).level_of_operand

end WrittenExpr

/-- An expression and the calls and properties after it, written out as tokens. -/
def WrittenCall (e : Expr) (i : NodeId) (w : List Token) (j : NodeId) : Prop :=
  ∃ callee k v u, w = v ++ u ∧ WrittenExpr (.primary callee) i v k ∧
    WrittenExpr (.calls callee e) k u j

namespace WrittenCall

variable {i j k : NodeId} {v w : List Token} {callee e : Expr}

theorem unary (h : WrittenCall e i w j) : WrittenExpr (.unary e) i w j := by
  obtain ⟨callee, k, v, u, rfl, hcallee, hcalls⟩ := h
  exact .called hcallee hcalls

theorem append (h : WrittenCall callee i v k) (hcalls : WrittenExpr (.calls callee e) k w j) :
    WrittenCall e i (v ++ w) j := by
  obtain ⟨first, k', v, u, rfl, hfirst, hmiddle⟩ := h
  exact ⟨first, k', v, u ++ w, List.append_assoc v u w, hfirst, hmiddle.calls_trans hcalls⟩

end WrittenCall

/-- An `else` after a statement that ends in an `if` without one is given to that `if`. -/
theorem WrittenStmt.attach_else {s : Stmt} {i k : NodeId} {v u : List Token} {t : Token}
    (h : WrittenStmt (.statement true s) i v k) (ht : t.kind = .keyword .elseWord)
    (hbranch : ∀ i, ∃ dangling s j, WrittenStmt (.statement dangling s) i u j) :
    ∃ dangling s j, WrittenStmt (.statement dangling s) i (v ++ t :: u) j := by
  generalize hp : StmtPhrase.statement true s = p at h
  induction h generalizing s with
  | forLoop hfor ho hinitial hcondition ha hstep hc _ _ ih =>
      cases hp
      obtain ⟨dangling, s, j, hs⟩ := ih rfl
      have hwhole := WrittenStmt.forLoop hfor ho hinitial hcondition ha hstep hc hs
      simp only [List.append_assoc, List.cons_append] at hwhole ⊢
      exact ⟨_, _, j, hwhole⟩
  | @ifThen _ _ _ dangling _ _ _ _ _ _ _ hif ho hcondition hc hthen ih =>
      cases dangling with
      | true =>
          obtain ⟨dangling, s, j, hs⟩ := ih rfl
          have hwhole := WrittenStmt.ifThen hif ho hcondition hc hs
          simp only [List.append_assoc, List.cons_append] at hwhole ⊢
          exact ⟨_, _, j, hwhole⟩
      | false =>
          obtain ⟨dangling, s, j, hs⟩ := hbranch _
          exact ⟨dangling, _, j, .ifElse hif ho hcondition hc hthen ht hs⟩
  | ifElse hif ho hcondition hc hthen he _ _ ih =>
      cases hp
      obtain ⟨dangling, s, j, hs⟩ := ih rfl
      have hwhole := WrittenStmt.ifElse hif ho hcondition hc hthen he hs
      simp only [List.append_assoc, List.cons_append] at hwhole ⊢
      exact ⟨_, _, j, hwhole⟩
  | whileLoop hwhile ho hcondition hc _ ih =>
      cases hp
      obtain ⟨dangling, s, j, hs⟩ := ih rfl
      have hwhole := WrittenStmt.whileLoop hwhile ho hcondition hc hs
      simp only [List.append_assoc, List.cons_append] at hwhole ⊢
      exact ⟨_, _, j, hwhole⟩
  | _ => cases hp

namespace Grammar.Nonterminal

/-- The tokens of a phrase are what some tree is written as. -/
def HasTree (w : List Token) : Nonterminal → Prop
  | program => ∃ v t, w = v ++ [t] ∧ t.kind = .eof ∧
      ∀ i, ∃ ss j, WrittenStmt (.declarations ss) i v j
  | declarations => ∀ i, ∃ ss j, WrittenStmt (.declarations ss) i w j
  | declaration | classDecl | funDecl => ∀ i, ∃ s j, WrittenStmt (.declaration s) i w j
  | superclass => ∀ i, ∃ ref j, WrittenSuperclass ref i w j
  | functions => ∀ i, ∃ ds j, WrittenStmt (.methods ds) i w j
  | function => ∀ i, ∃ d j, WrittenStmt (.function d) i w j
  | parameters most => ∃ names, names.length ≤ most ∧ WrittenParameters names w
  | varDecl => ∃ t v, w = t :: v ∧ t.kind = .keyword .varWord ∧
      ∀ i, ∃ s j, WrittenStmt (.varDeclaration s) i v j
  | initializer => w = [] ∨ ∃ t v, w = t :: v ∧ t.kind = .mark .equal ∧
      ∀ i, ∃ e j, WrittenExpr (.expression e) i v j
  | statement | forStmt | ifStmt | printStmt | returnStmt | whileStmt =>
      ∀ i, ∃ dangling s j, WrittenStmt (.statement dangling s) i w j
  | exprStmt => ∀ i, ∃ s j, WrittenStmt (.expressionStatement s) i w j
  | forInitial => ∀ i, ∃ initial j, WrittenStmt (.forInitial initial) i w j
  | block => ∃ o v c, w = o :: v ++ [c] ∧ o.kind = .mark .leftBrace ∧ c.kind = .mark .rightBrace ∧
      ∀ i, ∃ ss j, WrittenStmt (.declarations ss) i v j
  | optionalExpression => ∀ i, ∃ e j, WrittenOption e i w j
  | expression | assignment => ∀ i, ∃ e j, WrittenExpr (.expression e) i w j
  | logicOr => ∀ i, ∃ e j, WrittenExpr (.level .or e) i w j
  | logicAnd => ∀ i, ∃ e j, WrittenExpr (.level .and e) i w j
  | equality => ∀ i, ∃ e j, WrittenExpr (.level .equality e) i w j
  | comparison => ∀ i, ∃ e j, WrittenExpr (.level .comparison e) i w j
  | term => ∀ i, ∃ e j, WrittenExpr (.level .sum e) i w j
  | factor => ∀ i, ∃ e j, WrittenExpr (.level .product e) i w j
  | unary => ∀ i, ∃ e j, WrittenExpr (.unary e) i w j
  | call => ∀ i, ∃ e j, WrittenCall e i w j
  | arguments most => ∀ i, ∃ es j, es.length ≤ most ∧ WrittenExpr (.arguments es) i w j
  | primary => ∀ i, ∃ e j, WrittenExpr (.primary e) i w j

/-- The trees of some phrases are put together by the productions of a name. -/
def Closed (n : Nonterminal) : Prop :=
  ∀ body ∈ productions n, ∀ w, Splits (fun n w => n.HasTree w) body w → n.HasTree w

theorem closed_program : Closed program := by
  intro body hbody w h
  simp only [productions, List.mem_singleton] at hbody
  subst hbody
  obtain ⟨v, _, rfl, htree, t, _, rfl, ht, rfl⟩ := h
  exact ⟨v, t, rfl, ht, htree⟩

theorem closed_declarations : Closed declarations := by
  intro body hbody w h i
  simp only [productions, List.mem_cons, List.not_mem_nil, or_false] at hbody
  obtain rfl | rfl := hbody
  · cases h
    exact ⟨[], i, .noDeclarations⟩
  · obtain ⟨v, _, rfl, hfirst, u, _, rfl, hrest, rfl⟩ := h
    obtain ⟨s, k, hs⟩ := hfirst i
    obtain ⟨ss, j, hss⟩ := hrest k
    rw [List.append_nil]
    exact ⟨s :: ss, j, .declaration hs hss⟩

theorem closed_declaration : Closed declaration := by
  intro body hbody w h i
  simp only [productions, List.mem_cons, List.not_mem_nil, or_false] at hbody
  obtain rfl | rfl | rfl | rfl := hbody
  · obtain ⟨v, _, rfl, htree, rfl⟩ := h
    simpa using htree i
  · obtain ⟨v, _, rfl, htree, rfl⟩ := h
    simpa using htree i
  · obtain ⟨v, _, rfl, ⟨t, v, rfl, ht, htree⟩, rfl⟩ := h
    obtain ⟨s, j, hs⟩ := htree i
    rw [List.append_nil]
    exact ⟨s, j, .varDecl ht hs⟩
  · obtain ⟨v, _, rfl, htree, rfl⟩ := h
    obtain ⟨dangling, s, j, hs⟩ := htree i
    rw [List.append_nil]
    exact ⟨s, j, .statement hs⟩

theorem closed_classDecl : Closed classDecl := by
  intro body hbody w h i
  simp only [productions, List.mem_singleton] at hbody
  subst hbody
  obtain ⟨t, _, rfl, ht, u, _, rfl, hu, v, _, rfl, hsuperclass, o, _, rfl, ho, x, _, rfl, hmethods,
    c, _, rfl, hc, rfl⟩ := h
  obtain ⟨ref, k, hsuperclass⟩ := hsuperclass i
  obtain ⟨ds, j, hmethods⟩ := hmethods k
  have hclass := WrittenStmt.classDef ht hu hsuperclass ho hmethods hc
  simp only [List.append_assoc, List.cons_append] at hclass
  exact ⟨_, j, hclass⟩

theorem closed_superclass : Closed superclass := by
  intro body hbody w h i
  simp only [productions, List.mem_cons, List.not_mem_nil, or_false] at hbody
  obtain rfl | rfl := hbody
  · cases h
    exact ⟨none, i, .none⟩
  · obtain ⟨t, _, rfl, ht, u, _, rfl, hu, rfl⟩ := h
    exact ⟨_, _, .some ht hu⟩

theorem closed_functions : Closed functions := by
  intro body hbody w h i
  simp only [productions, List.mem_cons, List.not_mem_nil, or_false] at hbody
  obtain rfl | rfl := hbody
  · cases h
    exact ⟨[], i, .noMethods⟩
  · obtain ⟨v, _, rfl, hfirst, u, _, rfl, hrest, rfl⟩ := h
    obtain ⟨d, k, hd⟩ := hfirst i
    obtain ⟨ds, j, hds⟩ := hrest k
    rw [List.append_nil]
    exact ⟨d :: ds, j, .method hd hds⟩

theorem closed_funDecl : Closed funDecl := by
  intro body hbody w h i
  simp only [productions, List.mem_singleton] at hbody
  subst hbody
  obtain ⟨t, _, rfl, ht, v, _, rfl, hfunction, rfl⟩ := h
  obtain ⟨d, j, hd⟩ := hfunction i
  rw [List.append_nil]
  exact ⟨.function d, j, .funDecl ht hd⟩

theorem closed_function : Closed function := by
  intro body hbody w h i
  simp only [productions, List.mem_cons, List.not_mem_nil, or_false] at hbody
  obtain rfl | rfl := hbody
  · obtain ⟨t, _, rfl, ht, u, _, rfl, hu, v, _, rfl, hv, _, _, rfl,
      ⟨o, x, c, rfl, ho, hc, hbody⟩, rfl⟩ := h
    obtain ⟨ss, j, hss⟩ := hbody i
    rw [List.append_nil]
    exact ⟨_, j, .functionWithout ht hu hv ho hss hc⟩
  · obtain ⟨t, _, rfl, ht, u, _, rfl, hu, p, _, rfl, ⟨names, hlength, hp⟩, v, _, rfl, hv, _, _, rfl,
      ⟨o, x, c, rfl, ho, hc, hbody⟩, rfl⟩ := h
    obtain ⟨ss, j, hss⟩ := hbody i
    have hfunction := WrittenStmt.functionWith ht hu hlength hp hv ho hss hc
    simp only [List.append_assoc, List.cons_append] at hfunction
    simp only [List.cons_append, List.append_nil]
    exact ⟨_, j, hfunction⟩

theorem closed_parameters (most : Nat) : Closed (parameters most) := by
  intro body hbody w h
  cases most with
  | zero => cases hbody
  | succ most =>
      simp only [productions, List.mem_cons, List.not_mem_nil, or_false] at hbody
      obtain rfl | rfl := hbody
      · obtain ⟨t, _, rfl, ht, rfl⟩ := h
        exact ⟨[t.toName], by simp, .last ht⟩
      · obtain ⟨t, _, rfl, ht, u, _, rfl, hu, v, _, rfl, ⟨names, hlength, hnames⟩, rfl⟩ := h
        rw [List.append_nil]
        exact ⟨t.toName :: names, Nat.succ_le_succ hlength, .more ht hu hnames⟩

theorem closed_varDecl : Closed varDecl := by
  intro body hbody w h
  simp only [productions, List.mem_singleton] at hbody
  subst hbody
  obtain ⟨x, _, rfl, hx, t, _, rfl, ht, _, _, rfl, hinitial, u, _, rfl, hu, rfl⟩ := h
  refine ⟨x, _, rfl, hx, ?_⟩
  intro i
  obtain rfl | ⟨a, v, rfl, ha, hvalue⟩ := hinitial
  · exact ⟨_, _, .varWithout ht hu⟩
  · obtain ⟨e, j, he⟩ := hvalue i
    exact ⟨_, j, .varWith ht ha he hu⟩

theorem closed_initializer : Closed initializer := by
  intro body hbody w h
  simp only [productions, List.mem_cons, List.not_mem_nil, or_false] at hbody
  obtain rfl | rfl := hbody
  · exact Or.inl h
  · obtain ⟨t, _, rfl, ht, v, _, rfl, htree, rfl⟩ := h
    rw [List.append_nil]
    exact Or.inr ⟨t, v, rfl, ht, htree⟩

theorem closed_statement : Closed statement := by
  intro body hbody w h i
  simp only [productions, List.mem_cons, List.not_mem_nil, or_false] at hbody
  obtain rfl | rfl | rfl | rfl | rfl | rfl | rfl := hbody
  · obtain ⟨v, _, rfl, htree, rfl⟩ := h
    obtain ⟨s, j, hs⟩ := htree i
    rw [List.append_nil]
    exact ⟨false, s, j, .expression hs⟩
  · obtain ⟨v, _, rfl, htree, rfl⟩ := h
    simpa using htree i
  · obtain ⟨v, _, rfl, htree, rfl⟩ := h
    simpa using htree i
  · obtain ⟨v, _, rfl, htree, rfl⟩ := h
    simpa using htree i
  · obtain ⟨v, _, rfl, htree, rfl⟩ := h
    simpa using htree i
  · obtain ⟨v, _, rfl, htree, rfl⟩ := h
    simpa using htree i
  · obtain ⟨v, _, rfl, ⟨o, v, c, rfl, ho, hc, htree⟩, rfl⟩ := h
    obtain ⟨ss, j, hss⟩ := htree i
    rw [List.append_nil]
    exact ⟨false, _, j, .block ho hss hc⟩

theorem closed_exprStmt : Closed exprStmt := by
  intro body hbody w h i
  simp only [productions, List.mem_singleton] at hbody
  subst hbody
  obtain ⟨v, _, rfl, htree, t, _, rfl, ht, rfl⟩ := h
  obtain ⟨e, j, he⟩ := htree i
  exact ⟨_, j, .expressionStatement he ht⟩

theorem closed_forStmt : Closed forStmt := by
  intro body hbody w h i
  simp only [productions, List.mem_singleton] at hbody
  subst hbody
  obtain ⟨t, _, rfl, ht, o, _, rfl, ho, w₁, _, rfl, hinitial, w₂, _, rfl, hcondition, a, _, rfl, ha,
    w₃, _, rfl, hstep, c, _, rfl, hc, w₄, _, rfl, hbody, rfl⟩ := h
  obtain ⟨initial, k, hinitial⟩ := hinitial i
  obtain ⟨condition, l, hcondition⟩ := hcondition k
  obtain ⟨step, m, hstep⟩ := hstep l
  obtain ⟨dangling, s, j, hs⟩ := hbody m
  have hloop := WrittenStmt.forLoop ht ho hinitial hcondition ha hstep hc hs
  simp only [List.append_assoc, List.cons_append] at hloop
  rw [List.append_nil]
  exact ⟨_, _, j, hloop⟩

theorem closed_forInitial : Closed forInitial := by
  intro body hbody w h i
  simp only [productions, List.mem_cons, List.not_mem_nil, or_false] at hbody
  obtain rfl | rfl | rfl := hbody
  · obtain ⟨_, _, rfl, ⟨t, v, rfl, ht, htree⟩, rfl⟩ := h
    obtain ⟨s, j, hs⟩ := htree i
    rw [List.append_nil]
    exact ⟨some s, j, .varInitial ht hs⟩
  · obtain ⟨v, _, rfl, htree, rfl⟩ := h
    obtain ⟨s, j, hs⟩ := htree i
    rw [List.append_nil]
    exact ⟨some s, j, .expressionInitial hs⟩
  · obtain ⟨t, _, rfl, ht, rfl⟩ := h
    exact ⟨none, i, .noInitial ht⟩

theorem closed_ifStmt : Closed ifStmt := by
  intro body hbody w h i
  simp only [productions, List.mem_cons, List.not_mem_nil, or_false] at hbody
  obtain rfl | rfl := hbody
  · obtain ⟨t, _, rfl, ht, o, _, rfl, ho, v, _, rfl, hcondition, c, _, rfl, hc, u, _, rfl, hbranch,
      rfl⟩ := h
    obtain ⟨condition, k, hcondition⟩ := hcondition i
    obtain ⟨dangling, s, j, hs⟩ := hbranch k
    rw [List.append_nil]
    exact ⟨true, _, j, .ifThen ht ho hcondition hc hs⟩
  · obtain ⟨t, _, rfl, ht, o, _, rfl, ho, v, _, rfl, hcondition, c, _, rfl, hc, u, _, rfl, hthen, e,
      _, rfl, he, x, _, rfl, helse, rfl⟩ := h
    obtain ⟨condition, k, hcondition⟩ := hcondition i
    obtain ⟨dangling, s, l, hs⟩ := hthen k
    rw [List.append_nil]
    -- The `else` stays with this `if` only if no `if` of the branch before it can have it.
    cases dangling with
    | false =>
        obtain ⟨dangling, s', j, hs'⟩ := helse l
        have hbranches := WrittenStmt.ifElse ht ho hcondition hc hs he hs'
        simp only [List.append_assoc, List.cons_append] at hbranches
        exact ⟨_, _, j, hbranches⟩
    | true =>
        obtain ⟨dangling, s', j, hs'⟩ := hs.attach_else he helse
        exact ⟨true, _, j, .ifThen ht ho hcondition hc hs'⟩

theorem closed_printStmt : Closed printStmt := by
  intro body hbody w h i
  simp only [productions, List.mem_singleton] at hbody
  subst hbody
  obtain ⟨t, _, rfl, ht, v, _, rfl, htree, u, _, rfl, hu, rfl⟩ := h
  obtain ⟨e, j, he⟩ := htree i
  exact ⟨false, _, j, .print ht he hu⟩

theorem closed_returnStmt : Closed returnStmt := by
  intro body hbody w h i
  simp only [productions, List.mem_singleton] at hbody
  subst hbody
  obtain ⟨t, _, rfl, ht, v, _, rfl, htree, u, _, rfl, hu, rfl⟩ := h
  obtain ⟨value, j, hvalue⟩ := htree i
  exact ⟨false, _, j, .giveBack ht hvalue hu⟩

theorem closed_whileStmt : Closed whileStmt := by
  intro body hbody w h i
  simp only [productions, List.mem_singleton] at hbody
  subst hbody
  obtain ⟨t, _, rfl, ht, o, _, rfl, ho, v, _, rfl, hcondition, c, _, rfl, hc, u, _, rfl, hbody,
    rfl⟩ := h
  obtain ⟨condition, k, hcondition⟩ := hcondition i
  obtain ⟨dangling, s, j, hs⟩ := hbody k
  rw [List.append_nil]
  exact ⟨dangling, _, j, .whileLoop ht ho hcondition hc hs⟩

theorem closed_block : Closed block := by
  intro body hbody w h
  simp only [productions, List.mem_singleton] at hbody
  subst hbody
  obtain ⟨o, _, rfl, ho, v, _, rfl, htree, c, _, rfl, hc, rfl⟩ := h
  exact ⟨o, v, c, rfl, ho, hc, htree⟩

theorem closed_optionalExpression : Closed optionalExpression := by
  intro body hbody w h i
  simp only [productions, List.mem_cons, List.not_mem_nil, or_false] at hbody
  obtain rfl | rfl := hbody
  · cases h
    exact ⟨none, i, .none⟩
  · obtain ⟨v, _, rfl, htree, rfl⟩ := h
    obtain ⟨e, j, he⟩ := htree i
    rw [List.append_nil]
    exact ⟨some e, j, .some he⟩

theorem closed_expression : Closed expression := by
  intro body hbody w h i
  simp only [productions, List.mem_singleton] at hbody
  subst hbody
  obtain ⟨v, _, rfl, htree, rfl⟩ := h
  simpa using htree i

theorem closed_assignment : Closed assignment := by
  intro body hbody w h i
  simp only [productions, List.mem_cons, List.not_mem_nil, or_false] at hbody
  obtain rfl | rfl | rfl := hbody
  · obtain ⟨t, _, rfl, ht, u, _, rfl, hu, v, _, rfl, htree, rfl⟩ := h
    have hunary : WrittenExpr (.unary (.name ⟨i, t.toName⟩)) i [t] (i + 1) := by
      simpa using WrittenExpr.called (.name ht) .noCall
    obtain ⟨e, j, he⟩ := htree (i + 1)
    rw [List.append_nil]
    exact ⟨_, j, .assign (hunary.level_of_unary .or) hu he⟩
  · obtain ⟨v, _, rfl, hcall, t, _, rfl, ht, x, _, rfl, hx, u, _, rfl, hu, z, _, rfl, htree,
      rfl⟩ := h
    obtain ⟨object, k, hobject⟩ := hcall i
    have hproperty := hobject.append (.property ht hx .noCall)
    obtain ⟨e, j, he⟩ := htree k
    have hset := WrittenExpr.set (hproperty.unary.level_of_unary .or) hu he
    rw [List.append_assoc] at hset
    rw [List.append_nil]
    exact ⟨_, j, hset⟩
  · obtain ⟨v, _, rfl, htree, rfl⟩ := h
    obtain ⟨e, j, he⟩ := htree i
    rw [List.append_nil]
    exact ⟨e, j, .plain he⟩

/-- A level is an operand, or the level, an operator of it and an operand. -/
theorem production_of_level {l : Level} {body : List Symbol}
    (h : body ∈ productions l.nonterminal) :
    body = [.phrase l.operandNonterminal] ∨
      ∃ symbol, body = [.phrase l.nonterminal, symbol, .phrase l.operandNonterminal] ∧
        ∀ v w, Splits (fun n w => n.HasTree w) (symbol :: v) w →
          ∃ t u op, w = t :: u ∧ l.operator? t.kind = some op ∧
            Splits (fun n w => n.HasTree w) v u := by
  have hmark {m : Mark} {op : Operator} {v : List Symbol} {w : List Token}
      (hop : l.operator? (.mark m) = some op)
      (h : Splits (fun n w => n.HasTree w) (.mark m :: v) w) :
      ∃ t u op, w = t :: u ∧ l.operator? t.kind = some op ∧
        Splits (fun n w => n.HasTree w) v u := by
    obtain ⟨t, u, rfl, ht, hu⟩ := h
    exact ⟨t, u, op, rfl, by rw [show t.kind = .mark m from ht, hop], hu⟩
  have hkeyword {k : Keyword} {op : Operator} {v : List Symbol} {w : List Token}
      (hop : l.operator? (.keyword k) = some op)
      (h : Splits (fun n w => n.HasTree w) (.keyword k :: v) w) :
      ∃ t u op, w = t :: u ∧ l.operator? t.kind = some op ∧
        Splits (fun n w => n.HasTree w) v u := by
    obtain ⟨t, u, rfl, ht, hu⟩ := h
    exact ⟨t, u, op, rfl, by rw [show t.kind = .keyword k from ht, hop], hu⟩
  cases l with
  | or | and =>
      simp only [Level.nonterminal, productions, List.mem_cons, List.not_mem_nil, or_false] at h
      obtain rfl | rfl := h
      · exact Or.inl rfl
      · exact Or.inr ⟨_, rfl, fun _ _ => hkeyword rfl⟩
  | equality | sum | product =>
      simp only [Level.nonterminal, productions, List.mem_cons, List.not_mem_nil, or_false] at h
      obtain rfl | rfl | rfl := h
      · exact Or.inl rfl
      · exact Or.inr ⟨_, rfl, fun _ _ => hmark rfl⟩
      · exact Or.inr ⟨_, rfl, fun _ _ => hmark rfl⟩
  | comparison =>
      simp only [Level.nonterminal, productions, List.mem_cons, List.not_mem_nil, or_false] at h
      obtain rfl | rfl | rfl | rfl | rfl := h
      · exact Or.inl rfl
      · exact Or.inr ⟨_, rfl, fun _ _ => hmark rfl⟩
      · exact Or.inr ⟨_, rfl, fun _ _ => hmark rfl⟩
      · exact Or.inr ⟨_, rfl, fun _ _ => hmark rfl⟩
      · exact Or.inr ⟨_, rfl, fun _ _ => hmark rfl⟩

theorem hasTree_level {l : Level} {w : List Token} : l.nonterminal.HasTree w ↔
    ∀ i, ∃ e j, WrittenExpr (.level l e) i w j := by
  cases l <;> rfl

theorem operand_of_hasTree {l : Level} {w : List Token} (h : l.operandNonterminal.HasTree w)
    (i : NodeId) : ∃ e j, WrittenExpr (.operand l e) i w j := by
  cases hl : l.tighter? with
  | some l' =>
      have hname : l.operandNonterminal = l'.nonterminal := by simp [Level.operandNonterminal, hl]
      rw [hname, hasTree_level] at h
      obtain ⟨e, j, he⟩ := h i
      exact ⟨e, j, .tighter hl he⟩
  | none =>
      have hname : l.operandNonterminal = .unary := by simp [Level.operandNonterminal, hl]
      rw [hname] at h
      obtain ⟨e, j, he⟩ := h i
      exact ⟨e, j, .tightest hl he⟩

theorem closed_level (l : Level) : Closed l.nonterminal := by
  intro body hbody w h
  rw [hasTree_level]
  intro i
  obtain rfl | ⟨symbol, rfl, hsymbol⟩ := production_of_level hbody
  · obtain ⟨v, _, rfl, htree, rfl⟩ := h
    obtain ⟨e, j, he⟩ := operand_of_hasTree htree i
    exact ⟨e, j, .level he .noOperation⟩
  · obtain ⟨v, _, rfl, hlevel, h⟩ := h
    obtain ⟨t, _, op, rfl, hop, u, _, rfl, hoperand, rfl⟩ := hsymbol _ _ h
    obtain ⟨e, k, he⟩ := hasTree_level.mp hlevel i
    obtain ⟨right, j, hright⟩ := operand_of_hasTree hoperand k
    cases he with
    | level hleft hrest =>
        have hmore := hrest.operations_trans (.operation hop hright .noOperation)
        rw [List.append_nil] at hmore
        rw [List.append_nil, List.append_assoc]
        exact ⟨_, j, .level hleft hmore⟩

theorem closed_unary : Closed unary := by
  intro body hbody w h i
  simp only [productions, List.mem_cons, List.not_mem_nil, or_false] at hbody
  obtain rfl | rfl | rfl := hbody
  · obtain ⟨t, _, rfl, ht, v, _, rfl, htree, rfl⟩ := h
    obtain ⟨e, j, he⟩ := htree i
    have hop : UnaryOp.ofKind? t.kind = some .not := by rw [show t.kind = .mark .bang from ht]; rfl
    rw [List.append_nil]
    exact ⟨_, j, .prefixed hop he⟩
  · obtain ⟨t, _, rfl, ht, v, _, rfl, htree, rfl⟩ := h
    obtain ⟨e, j, he⟩ := htree i
    have hop : UnaryOp.ofKind? t.kind = some .negate := by
      rw [show t.kind = .mark .minus from ht]
      rfl
    rw [List.append_nil]
    exact ⟨_, j, .prefixed hop he⟩
  · obtain ⟨v, _, rfl, htree, rfl⟩ := h
    obtain ⟨e, j, he⟩ := htree i
    rw [List.append_nil]
    exact ⟨e, j, he.unary⟩

theorem closed_call : Closed call := by
  intro body hbody w h i
  simp only [productions, List.mem_cons, List.not_mem_nil, or_false] at hbody
  obtain rfl | rfl | rfl | rfl := hbody
  · obtain ⟨v, _, rfl, htree, rfl⟩ := h
    obtain ⟨e, j, he⟩ := htree i
    exact ⟨e, j, e, j, v, [], rfl, he, .noCall⟩
  · obtain ⟨v, _, rfl, htree, t, _, rfl, ht, u, _, rfl, hu, rfl⟩ := h
    obtain ⟨e, j, he⟩ := htree i
    exact ⟨_, j, he.append (.callWithout ht hu .noCall)⟩
  · obtain ⟨v, _, rfl, htree, t, _, rfl, ht, x, _, rfl, harguments, u, _, rfl, hu, rfl⟩ := h
    obtain ⟨e, k, he⟩ := htree i
    obtain ⟨es, j, hlength, hes⟩ := harguments k
    exact ⟨_, j, he.append (.callWith ht hlength hes hu .noCall)⟩
  · obtain ⟨v, _, rfl, htree, t, _, rfl, ht, u, _, rfl, hu, rfl⟩ := h
    obtain ⟨e, j, he⟩ := htree i
    exact ⟨_, j, he.append (.property ht hu .noCall)⟩

theorem closed_arguments (most : Nat) : Closed (arguments most) := by
  intro body hbody w h i
  cases most with
  | zero => cases hbody
  | succ most =>
      simp only [productions, List.mem_cons, List.not_mem_nil, or_false] at hbody
      obtain rfl | rfl := hbody
      · obtain ⟨v, _, rfl, htree, rfl⟩ := h
        obtain ⟨e, j, he⟩ := htree i
        rw [List.append_nil]
        exact ⟨[e], j, by simp, .lastArgument he⟩
      · obtain ⟨v, _, rfl, htree, t, _, rfl, ht, u, _, rfl, hrest, rfl⟩ := h
        obtain ⟨e, k, he⟩ := htree i
        obtain ⟨es, j, hlength, hes⟩ := hrest k
        rw [List.append_nil]
        exact ⟨e :: es, j, Nat.succ_le_succ hlength, .argument he ht hes⟩

theorem closed_primary : Closed primary := by
  intro body hbody w h i
  have hliteral {k : Kind} {t : Token} {value : Literal} (ht : t.kind = k)
      (hvalue : Literal.ofKind? k = some value) : ∃ e j, WrittenExpr (.primary e) i [t] j :=
    ⟨_, _, .literal (ht ▸ hvalue)⟩
  simp only [productions, List.mem_cons, List.not_mem_nil, or_false] at hbody
  obtain rfl | rfl | rfl | rfl | rfl | rfl | rfl | rfl | rfl := hbody
  · obtain ⟨t, _, rfl, ⟨value, ht⟩, rfl⟩ := h
    exact hliteral ht rfl
  · obtain ⟨t, _, rfl, ⟨text, ht⟩, rfl⟩ := h
    exact hliteral ht rfl
  · obtain ⟨t, _, rfl, ht, rfl⟩ := h
    exact hliteral ht rfl
  · obtain ⟨t, _, rfl, ht, rfl⟩ := h
    exact hliteral ht rfl
  · obtain ⟨t, _, rfl, ht, rfl⟩ := h
    exact hliteral ht rfl
  · obtain ⟨t, _, rfl, ht, rfl⟩ := h
    exact ⟨_, _, .receiver ht⟩
  · obtain ⟨t, _, rfl, ht, rfl⟩ := h
    exact ⟨_, _, .name ht⟩
  · obtain ⟨t, _, rfl, ht, v, _, rfl, htree, u, _, rfl, hu, rfl⟩ := h
    obtain ⟨e, j, he⟩ := htree i
    exact ⟨_, j, .grouping ht he hu⟩
  · obtain ⟨t, _, rfl, ht, u, _, rfl, hu, v, _, rfl, hv, rfl⟩ := h
    exact ⟨_, _, .inherited ht hu hv⟩

/-- Every phrase of the grammar is what some tree is written as. -/
theorem Yields.hasTree {n : Nonterminal} {w : List Token} (h : n.Yields w) : n.HasTree w := by
  refine Yields.closed (P := fun n w => n.HasTree w) ?_ h
  intro n
  cases n with
  | program => exact closed_program
  | declarations => exact closed_declarations
  | declaration => exact closed_declaration
  | classDecl => exact closed_classDecl
  | superclass => exact closed_superclass
  | functions => exact closed_functions
  | funDecl => exact closed_funDecl
  | function => exact closed_function
  | parameters most => exact closed_parameters most
  | varDecl => exact closed_varDecl
  | initializer => exact closed_initializer
  | statement => exact closed_statement
  | exprStmt => exact closed_exprStmt
  | forStmt => exact closed_forStmt
  | forInitial => exact closed_forInitial
  | ifStmt => exact closed_ifStmt
  | printStmt => exact closed_printStmt
  | returnStmt => exact closed_returnStmt
  | whileStmt => exact closed_whileStmt
  | block => exact closed_block
  | optionalExpression => exact closed_optionalExpression
  | expression => exact closed_expression
  | assignment => exact closed_assignment
  | logicOr => exact closed_level .or
  | logicAnd => exact closed_level .and
  | equality => exact closed_level .equality
  | comparison => exact closed_level .comparison
  | term => exact closed_level .sum
  | factor => exact closed_level .product
  | unary => exact closed_unary
  | call => exact closed_call
  | arguments most => exact closed_arguments most
  | primary => exact closed_primary

end Grammar.Nonterminal

end ScopedScript
