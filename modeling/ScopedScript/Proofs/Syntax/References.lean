import ScopedScript.Proofs.Syntax.Shape
import ScopedScript.Syntax.Occurrences

/-!
# What names refer to

A reference to a variable is written as an identifier, and so is the target of an assignment. So
neither is ever one of the words that scopes declare of their own accord.
-/

namespace ScopedScript

/-- A place that reads a variable or assigns to one shows an ordinary name. -/
def Occurrence.Plain (o : Occurrence) : Prop :=
  o.role = .read ∨ o.role = .assign → Ordinary o.name.text

theorem Expr.occurrencesOption_some (e : Expr) :
    Expr.occurrencesOption (some e) = e.occurrences := by
  simp [Expr.occurrencesOption]

theorem Reference.plain_occurrence {ref : Reference} {role : Role} (h : Ordinary ref.name.text) :
    (ref.occurrence role).Plain := fun _ => h

mutual

/-- The references of a statement that stand in no method of a class declared in it. -/
def Stmt.direct : Stmt → List Occurrence
  | .expression e => e.occurrences
  | .print e => e.occurrences
  | .var _ initial => Expr.occurrencesOption initial
  | .block body => Stmt.directAll body
  | .ifThen condition thenBranch => condition.occurrences ++ thenBranch.direct
  | .ifElse condition thenBranch elseBranch =>
    condition.occurrences ++ (thenBranch.direct ++ elseBranch.direct)
  | .loop condition body => condition.occurrences ++ body.direct
  | .function declaration => FunctionDecl.direct declaration
  | .giveBack _ value => Expr.occurrencesOption value
  | .classDef _ superclass _ => superclass.toList.map (·.occurrence .read)

/-- The references of statements that stand in none of the methods of the classes declared in
them. -/
def Stmt.directAll : List Stmt → List Occurrence
  | [] => []
  | s :: ss => s.direct ++ Stmt.directAll ss

/-- The references of the body of a function that stand in none of the methods of the classes
declared in it. Of those in a method, it is the innermost one that they stand in. -/
def FunctionDecl.direct : FunctionDecl → List Occurrence
  | ⟨_, _, body⟩ => Stmt.directAll body

end

/-- What is known of the references of a phrase. -/
def ExprPhrase.RefersPlainly : ExprPhrase → Prop
  | expression e | level _ e | operand _ e | unary e | primary e => ∀ o ∈ e.occurrences, o.Plain
  | operations _ left e | calls left e =>
      (∀ o ∈ left.occurrences, o.Plain) → ∀ o ∈ e.occurrences, o.Plain
  | arguments es => ∀ o ∈ Expr.occurrencesAll es, o.Plain

theorem Operator.occurrences_apply (op : Operator) (line : Nat) (left right : Expr) :
    (op.apply line left right).occurrences = left.occurrences ++ right.occurrences := by
  cases op <;> rfl

/-- The references of an expression that is written in tokens whose identifiers are ordinary names
show ordinary names. -/
theorem WrittenExpr.refersPlainly {p : ExprPhrase} {i j : NodeId} {w : List Token}
    (h : WrittenExpr p i w j) (hw : NamesOrdinary w) : p.RefersPlainly := by
  induction h with
  | plain _ ih | tighter _ _ ih | tightest _ _ ih => exact ih hw
  | prefixed _ _ ih => exact ih (NamesOrdinary.cons.mp hw).2
  | assign _ _ _ ih ihvalue =>
      rw [NamesOrdinary.append, NamesOrdinary.cons] at hw
      obtain ⟨htarget, _, hvalue⟩ := hw
      have hread := ih htarget _ (List.mem_singleton_self _) (Or.inl rfl)
      exact List.forall_mem_cons.mpr ⟨fun _ => hread, ihvalue hvalue⟩
  | set _ _ _ ih ihvalue =>
      rw [NamesOrdinary.append, NamesOrdinary.cons] at hw
      exact List.forall_mem_append.mpr ⟨ih hw.1, ihvalue hw.2.2⟩
  | level _ _ ih ihrest | called _ _ ih ihrest =>
      rw [NamesOrdinary.append] at hw
      exact ihrest hw.2 (ih hw.1)
  | noOperation | noCall => exact id
  | operation _ _ _ ih ihrest =>
      simp only [List.cons_append, NamesOrdinary.cons, NamesOrdinary.append] at hw
      intro hleft
      refine ihrest hw.2.2 ?_
      rw [Operator.occurrences_apply]
      exact List.forall_mem_append.mpr ⟨hleft, ih hw.2.1⟩
  | callWithout _ _ _ ih =>
      simp only [NamesOrdinary.cons] at hw
      intro hcallee
      exact ih hw.2.2 (List.forall_mem_append.mpr ⟨hcallee, fun _ h => (List.not_mem_nil h).elim⟩)
  | callWith _ _ _ _ _ iharguments ih =>
      simp only [List.cons_append, NamesOrdinary.cons, NamesOrdinary.append] at hw
      intro hcallee
      exact ih hw.2.2.2 (List.forall_mem_append.mpr ⟨hcallee, iharguments hw.2.1⟩)
  | property _ _ _ ih =>
      simp only [NamesOrdinary.cons] at hw
      exact ih hw.2.2
  | lastArgument _ ih =>
      exact List.forall_mem_append.mpr ⟨ih hw, fun _ h => (List.not_mem_nil h).elim⟩
  | argument _ _ _ ih ihrest =>
      rw [NamesOrdinary.append, NamesOrdinary.cons] at hw
      exact List.forall_mem_append.mpr ⟨ih hw.1, ihrest hw.2.2⟩
  | literal _ => exact fun _ h => (List.not_mem_nil h).elim
  | inherited _ _ _ | receiver _ =>
      refine List.forall_mem_singleton.mpr ?_
      rintro (h | h) <;> cases h
  | name ht =>
      exact List.forall_mem_singleton.mpr
        (Reference.plain_occurrence (hw _ List.mem_cons_self ht))
  | grouping _ _ _ ih =>
      simp only [List.cons_append, NamesOrdinary.cons, NamesOrdinary.append] at hw
      exact ih hw.2.1

theorem WrittenOption.refersPlainly {e : Option Expr} {i j : NodeId} {w : List Token}
    (h : WrittenOption e i w j) (hw : NamesOrdinary w) :
    ∀ o ∈ Expr.occurrencesOption e, o.Plain := by
  cases h with
  | none => exact fun _ h => (List.not_mem_nil h).elim
  | some h =>
      rw [Expr.occurrencesOption_some]
      exact h.refersPlainly hw

/-- What is known of the references of a phrase. -/
def StmtPhrase.RefersPlainly : StmtPhrase → Prop
  | function d => ∀ o ∈ FunctionDecl.occurrences d, o.Plain
  | methods ds => ∀ o ∈ FunctionDecl.occurrencesAll ds, o.Plain
  | varDeclaration s | expressionStatement s | statement _ s | declaration s
  | forInitial (some s) => ∀ o ∈ s.occurrences, o.Plain
  | forInitial none => True
  | declarations ss => ∀ o ∈ Stmt.occurrencesAll ss, o.Plain

/-- A `for` has the references of its parts. -/
theorem refersPlainly_forLoop {initial : Option Stmt} {condition step : Option Expr} {body : Stmt}
    (hinitial : (StmtPhrase.forInitial initial).RefersPlainly)
    (hcondition : ∀ o ∈ Expr.occurrencesOption condition, o.Plain)
    (hstep : ∀ o ∈ Expr.occurrencesOption step, o.Plain)
    (hbody : ∀ o ∈ body.occurrences, o.Plain) :
    ∀ o ∈ (Stmt.forLoop initial condition step body).occurrences, o.Plain := by
  cases initial <;> cases condition <;> cases step <;>
    simp_all [Stmt.forLoop, Stmt.occurrences, Stmt.occurrencesAll, StmtPhrase.RefersPlainly,
      Expr.occurrencesOption, Expr.occurrences, or_imp]

/-- The references of what is written in tokens whose identifiers are ordinary names show ordinary
names. -/
theorem WrittenStmt.refersPlainly {p : StmtPhrase} {i j : NodeId} {w : List Token}
    (h : WrittenStmt p i w j) (hw : NamesOrdinary w) : p.RefersPlainly := by
  induction h with
  | functionWithout _ _ _ _ _ _ ih =>
      simp only [List.cons_append, NamesOrdinary.cons, NamesOrdinary.append] at hw
      exact ih hw.2.2.2.2.1
  | functionWith _ _ _ _ _ _ _ _ ih =>
      simp only [List.cons_append, List.append_assoc, NamesOrdinary.cons,
        NamesOrdinary.append] at hw
      exact ih hw.2.2.2.2.2.1
  | noMethods | noDeclarations | varWithout _ _ => exact fun _ h => (List.not_mem_nil h).elim
  | noInitial => trivial
  | method _ _ ih ihrest | declaration _ _ ih ihrest =>
      rw [NamesOrdinary.append] at hw
      exact List.forall_mem_append.mpr ⟨ih hw.1, ihrest hw.2⟩
  | varWith _ _ h _ =>
      simp only [List.cons_append, NamesOrdinary.cons, NamesOrdinary.append] at hw
      exact (WrittenOption.some h).refersPlainly hw.2.2.1
  | expressionStatement h _ =>
      rw [NamesOrdinary.append] at hw
      exact h.refersPlainly hw.1
  | varInitial _ _ ih | funDecl _ _ ih | varDecl _ _ ih => exact ih (NamesOrdinary.cons.mp hw).2
  | expressionInitial _ ih | expression _ ih | statement _ ih => exact ih hw
  | forLoop _ _ _ hcondition _ hstep _ _ ihinitial ih =>
      simp only [List.cons_append, List.append_assoc, NamesOrdinary.cons,
        NamesOrdinary.append] at hw
      obtain ⟨_, _, hinitial, hwcondition, _, hwstep, _, hbody⟩ := hw
      exact refersPlainly_forLoop (ihinitial hinitial) (hcondition.refersPlainly hwcondition)
        (hstep.refersPlainly hwstep) (ih hbody)
  | ifThen _ _ h _ _ ih | whileLoop _ _ h _ _ ih =>
      simp only [List.cons_append, NamesOrdinary.cons, NamesOrdinary.append] at hw
      exact List.forall_mem_append.mpr ⟨h.refersPlainly hw.2.2.1, ih hw.2.2.2.2⟩
  | ifElse _ _ h _ _ _ _ ihthen ihelse =>
      simp only [List.cons_append, List.append_assoc, NamesOrdinary.cons,
        NamesOrdinary.append] at hw
      exact List.forall_mem_append.mpr ⟨List.forall_mem_append.mpr
        ⟨h.refersPlainly hw.2.2.1, ihthen hw.2.2.2.2.1⟩, ihelse hw.2.2.2.2.2.2⟩
  | print _ h _ =>
      simp only [List.cons_append, NamesOrdinary.cons, NamesOrdinary.append] at hw
      exact h.refersPlainly hw.2.1
  | giveBack _ h _ =>
      simp only [List.cons_append, NamesOrdinary.cons, NamesOrdinary.append] at hw
      exact h.refersPlainly hw.2.1
  | block _ _ _ ih =>
      simp only [List.cons_append, NamesOrdinary.cons, NamesOrdinary.append] at hw
      exact ih hw.2.1
  | classDef _ _ hsuperclass _ _ _ ih =>
      simp only [List.cons_append, List.append_assoc, NamesOrdinary.cons,
        NamesOrdinary.append] at hw
      refine List.forall_mem_append.mpr ⟨?_, ih hw.2.2.2.2.1⟩
      cases hsuperclass with
      | none => exact fun _ h => (List.not_mem_nil h).elim
      | some _ hu =>
          exact List.forall_mem_singleton.mpr (Reference.plain_occurrence
            (hw.2.2.1 _ (List.mem_cons_of_mem _ List.mem_cons_self) hu))

end ScopedScript
