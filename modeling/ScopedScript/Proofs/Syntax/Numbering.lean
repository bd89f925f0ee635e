import ScopedScript.Proofs.Scope.Rules
import ScopedScript.Proofs.Syntax.Written

/-!
# The numbers of references

The references of what has been written are numbered from the first number on, each number being
given once. What is found for references is listed in the order in which a program is resolved,
which need not be that of the numbers.
-/

namespace ScopedScript

/-- The numbers of references for which something is found. -/
def idsOf (records : List Record) : List NodeId := records.map Prod.fst

@[simp] theorem idsOf_nil : idsOf [] = [] := rfl

@[simp] theorem idsOf_append (rs rs' : List Record) : idsOf (rs ++ rs') = idsOf rs ++ idsOf rs' :=
  List.map_append

/-- The numbers in a list are those from `i` on that come before `j`. -/
structure Numbers (i j : Nat) (ids : List Nat) : Prop where
  le : i ≤ j
  perm : ids.Perm (List.range' i (j - i))

namespace Numbers

variable {i j k : Nat} {ids ids' : List Nat}

theorem nil (i : Nat) : Numbers i i [] := ⟨Nat.le_refl i, by simp⟩

theorem single (i : Nat) : Numbers i (i + 1) [i] := ⟨Nat.le_succ i, by simp⟩

theorem append (h : Numbers i k ids) (h' : Numbers k j ids') : Numbers i j (ids ++ ids') := by
  refine ⟨Nat.le_trans h.le h'.le, (h.perm.append h'.perm).trans ?_⟩
  have hle := h.le
  have hle' := h'.le
  have hrange := List.range'_append_1 (s := i) (m := k - i) (n := j - k)
  rw [Nat.add_sub_cancel' hle] at hrange
  rw [hrange, show k - i + (j - k) = j - i by omega]

/-- The numbers may come in any order. -/
theorem of_perm (h : Numbers i j ids) (hperm : ids'.Perm ids) : Numbers i j ids' :=
  ⟨h.le, hperm.trans h.perm⟩

theorem append_swap (h : Numbers i k ids) (h' : Numbers k j ids') : Numbers i j (ids' ++ ids) :=
  (h.append h').of_perm List.perm_append_comm

theorem nodup (h : Numbers i j ids) : ids.Nodup := h.perm.nodup_iff.mpr (List.nodup_range' 1)

theorem mem_iff (h : Numbers i j ids) {id : Nat} : id ∈ ids ↔ i ≤ id ∧ id < j := by
  have hle := h.le
  rw [h.perm.mem_iff, List.mem_range'_1]
  omega

end Numbers

/-- The references of a phrase are numbered from `i` on, up to `j`. -/
def ExprPhrase.Numbered (i j : NodeId) : ExprPhrase → Prop
  | expression e | level _ e | operand _ e | unary e | primary e =>
      ∀ Γ, Numbers i j (idsOf (e.records Γ))
  | operations _ left e | calls left e => ∀ Γ, ∃ ids, Numbers i j ids ∧
      (idsOf (e.records Γ)).Perm (idsOf (left.records Γ) ++ ids)
  | arguments es => ∀ Γ, Numbers i j (idsOf (Expr.recordsAll Γ es))

theorem Operator.records_apply (op : Operator) (line : Nat) (left right : Expr) (Γ : Scopes) :
    (op.apply line left right).records Γ = left.records Γ ++ right.records Γ := by
  cases op <;> rfl

theorem WrittenExpr.numbered {p : ExprPhrase} {i j : NodeId} {w : List Token}
    (h : WrittenExpr p i w j) : p.Numbered i j := by
  induction h with
  | plain _ ih | tighter _ _ ih | tightest _ _ ih | prefixed _ _ ih => exact ih
  | assign _ _ _ ih ihvalue =>
      intro Γ
      have hnumbers := (ih Γ).append_swap (ihvalue Γ)
      rwa [← idsOf_append] at hnumbers
  | set _ _ _ ih ihvalue =>
      intro Γ
      have hnumbers := (ih Γ).append_swap (ihvalue Γ)
      rwa [← idsOf_append] at hnumbers
  | level _ _ ih ihrest | called _ _ ih ihrest =>
      intro Γ
      obtain ⟨ids, hids, hperm⟩ := ihrest Γ
      exact ((ih Γ).append hids).of_perm hperm
  | noOperation | noCall =>
      intro Γ
      exact ⟨[], .nil _, by rw [List.append_nil]⟩
  | operation _ _ _ ih ihrest =>
      intro Γ
      obtain ⟨ids, hids, hperm⟩ := ihrest Γ
      refine ⟨_, (ih Γ).append hids, ?_⟩
      rwa [Operator.records_apply, idsOf_append, List.append_assoc] at hperm
  | callWithout _ _ _ ih =>
      intro Γ
      obtain ⟨ids, hids, hperm⟩ := ih Γ
      refine ⟨ids, hids, ?_⟩
      simpa [Expr.records, Expr.recordsAll] using hperm
  | callWith _ _ _ _ _ iharguments ih =>
      intro Γ
      obtain ⟨ids, hids, hperm⟩ := ih Γ
      refine ⟨_, (iharguments Γ).append hids, ?_⟩
      simpa [Expr.records] using hperm
  | property _ _ _ ih =>
      intro Γ
      obtain ⟨ids, hids, hperm⟩ := ih Γ
      exact ⟨ids, hids, hperm⟩
  | lastArgument _ ih =>
      intro Γ
      simpa [Expr.recordsAll] using ih Γ
  | argument _ _ _ ih ihrest =>
      intro Γ
      have hnumbers := (ih Γ).append (ihrest Γ)
      rwa [← idsOf_append] at hnumbers
  | literal _ => exact fun _ => .nil _
  | inherited _ _ _ | receiver _ | name _ => exact fun _ => .single _
  | grouping _ _ _ ih => exact ih

theorem WrittenOption.numbers {e : Option Expr} {i j : NodeId} {w : List Token}
    (h : WrittenOption e i w j) (Γ : Scopes) : Numbers i j (idsOf (Expr.recordsOption Γ e)) := by
  cases h with
  | none => exact .nil _
  | some h => exact h.numbered Γ

/-- The references of a phrase are numbered from `i` on, up to `j`. -/
def StmtPhrase.Numbered (i j : NodeId) : StmtPhrase → Prop
  | function d => ∀ Γ, Numbers i j (idsOf (d.records Γ))
  | methods ds => ∀ Γ, Numbers i j (idsOf (FunctionDecl.recordsAll Γ ds))
  | varDeclaration s | expressionStatement s | statement _ s | declaration s =>
      ∀ Γ, Numbers i j (idsOf (s.records Γ))
  | forInitial none => i = j
  | forInitial (some s) => ∀ Γ, Numbers i j (idsOf (s.records Γ))
  | declarations ss => ∀ Γ, Numbers i j (idsOf (Stmt.recordsAll Γ ss))

/-- A `for` has the references of its parts, with those of the step after those of the body. -/
theorem numbers_forLoop {initial : Option Stmt} {condition step : Option Expr} {body : Stmt}
    {i j k l m : NodeId} (hinitial : (StmtPhrase.forInitial initial).Numbered i k)
    (hcondition : ∀ Γ, Numbers k l (idsOf (Expr.recordsOption Γ condition)))
    (hstep : ∀ Γ, Numbers l m (idsOf (Expr.recordsOption Γ step)))
    (hbody : ∀ Γ, Numbers m j (idsOf (body.records Γ))) (Γ : Scopes) :
    Numbers i j (idsOf ((Stmt.forLoop initial condition step body).records Γ)) := by
  obtain ⟨turn, hturn, hfor⟩ : ∃ turn : Stmt, (∀ Γ, Numbers l j (idsOf (turn.records Γ))) ∧
      Stmt.forLoop initial condition step body = Stmt.forLoop initial condition none turn := by
    cases step with
    | none => exact ⟨body, fun Γ => (hstep Γ).append (hbody Γ), rfl⟩
    | some e =>
        refine ⟨_, fun Γ => ?_, rfl⟩
        have hboth := (hstep (body.after ([] :: Γ))).append_swap (hbody ([] :: Γ))
        simpa [Stmt.records, Stmt.recordsAll, Expr.recordsOption] using hboth
  have hloop (Γ : Scopes) : Numbers k j (idsOf (Stmt.records Γ
      (.loop (condition.getD (.literal (.bool true))) turn))) := by
    have hboth := (hcondition Γ).append (hturn Γ)
    cases condition with
    | none => simpa [Stmt.records, Expr.records, Expr.recordsOption] using hboth
    | some e => simpa [Stmt.records, Expr.recordsOption] using hboth
  rw [hfor]
  cases initial with
  | none =>
      cases hinitial
      exact hloop Γ
  | some s =>
      have hboth := (hinitial ([] :: Γ)).append (hloop (s.after ([] :: Γ)))
      simpa [Stmt.records, Stmt.recordsAll, Stmt.forLoop] using hboth

theorem WrittenStmt.numbered {p : StmtPhrase} {i j : NodeId} {w : List Token}
    (h : WrittenStmt p i w j) : p.Numbered i j := by
  induction h with
  | functionWithout _ _ _ _ _ _ ih => exact fun _ => ih _
  | functionWith _ _ _ _ _ _ _ _ ih => exact fun _ => ih _
  | noMethods | noDeclarations | varWithout => exact fun _ => .nil _
  | method _ _ ih ihrest =>
      intro Γ
      have hboth := (ih Γ).append (ihrest Γ)
      rwa [← idsOf_append] at hboth
  | varWith _ _ h _ => exact fun _ => h.numbered _
  | expressionStatement h _ => exact h.numbered
  | noInitial => rfl
  | varInitial _ _ ih | expressionInitial _ ih => exact ih
  | forLoop _ _ _ hcondition _ hstep _ _ ihinitial ih =>
      exact numbers_forLoop ihinitial hcondition.numbers hstep.numbers ih
  | ifThen _ _ hcondition _ _ ih | whileLoop _ _ hcondition _ _ ih =>
      intro Γ
      have hboth := (hcondition.numbered Γ).append (ih Γ)
      rwa [← idsOf_append] at hboth
  | @ifElse _ _ _ _ _ _ thenBranch _ _ _ _ _ _ _ _ _ _ hcondition _ _ _ _ ihthen ihelse =>
      intro Γ
      have hall := (hcondition.numbered Γ).append
        ((ihthen Γ).append (ihelse (thenBranch.after Γ)))
      rwa [← idsOf_append, ← idsOf_append] at hall
  | print _ h _ => exact h.numbered
  | giveBack _ h _ => exact h.numbers
  | block _ _ _ ih => exact fun _ => ih _
  | expression _ ih => exact ih
  | classDef _ _ hsuperclass _ _ _ ih =>
      intro Γ
      cases hsuperclass with
      | none => exact ih _
      | some _ _ => exact (Numbers.single _).append (ih _)
  | funDecl _ _ ih => exact fun _ => ih _
  | varDecl _ _ ih | statement _ ih => exact ih
  | @declaration s _ _ _ _ _ _ _ _ ih ihrest =>
      intro Γ
      have hboth := (ih Γ).append (ihrest (s.after Γ))
      rwa [← idsOf_append] at hboth

end ScopedScript
