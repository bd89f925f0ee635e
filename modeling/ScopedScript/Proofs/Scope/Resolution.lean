import ScopedScript.Proofs.Scope.Rules

/-!
# The resolver finds what the rules say

A program is resolved just when it obeys the rules of scoping, and what is found for its references
is then what is said of them in the scopes that enclose them.
-/

namespace ScopedScript

/-- Take note of what is found for references, one after the other. -/
def recordAll (distances : Distances) : List Record → Distances
  | [] => distances
  | (id, some distance) :: records => recordAll (distances.insert id distance) records
  | (_, none) :: records => recordAll distances records

theorem recordAll_append (distances : Distances) (rs rs' : List Record) :
    recordAll distances (rs ++ rs') = recordAll (recordAll distances rs) rs' := by
  induction rs generalizing distances with
  | nil => rfl
  | cons r rs ih =>
      obtain ⟨id, found⟩ := r
      cases found with
      | none => exact ih _
      | some distance => exact ih _

namespace Resolve

variable {α β : Type} {r r' : Resolution} {setting : Setting}

/-- The result of resolving something well, if it leaves the scopes `Γ` and finds `rs`. -/
def found (r : Resolution) (Γ : Scopes) (rs : List Record) : Resolution :=
  ⟨Γ, recordAll r.distances rs⟩

@[simp] theorem scopes_found (Γ : Scopes) (rs : List Record) : (found r Γ rs).scopes = Γ := rfl

theorem found_found (Γ Γ' : Scopes) (rs rs' : List Record) :
    found (found r Γ rs) Γ' rs' = found r Γ' (rs ++ rs') := by
  simp [found, recordAll_append]

theorem bind_eq_ok {m : Resolve α} {f : α → Resolve β} {b : β} :
    (m >>= f) r = .ok (b, r') ↔ ∃ a r₁, m r = .ok (a, r₁) ∧ f a r₁ = .ok (b, r') := by
  change (m r >>= fun p => f p.1 p.2) = .ok (b, r') ↔ _
  cases hm : m r with
  | error e =>
      constructor
      · intro h
        cases h
      · rintro ⟨a, r₁, h, _⟩
        cases h
  | ok p =>
      obtain ⟨a, r₁⟩ := p
      constructor
      · intro h
        exact ⟨a, r₁, rfl, h⟩
      · rintro ⟨a', r₁', heq, h⟩
        cases heq
        exact h

theorem pure_eq_ok {a : α} : (pure a : Resolve α) r = .ok (a, r) := rfl

/-- Two steps that are each taken under a condition are taken one after the other under both. -/
theorem step_eq_ok {m m' : Resolve Unit} {P P' : Prop} {Γ Γ' : Scopes} {rs rs' : List Record}
    (h : ∀ r₁, m r = .ok ((), r₁) ↔ P ∧ r₁ = found r Γ rs)
    (h' : m' (found r Γ rs) = .ok ((), r') ↔ P' ∧ r' = found (found r Γ rs) Γ' rs') :
    (do m; m') r = .ok ((), r') ↔ (P ∧ P') ∧ r' = found r Γ' (rs ++ rs') := by
  rw [bind_eq_ok]
  constructor
  · rintro ⟨⟨⟩, r₁, hm, hm'⟩
    obtain ⟨hP, rfl⟩ := (h r₁).mp hm
    obtain ⟨hP', rfl⟩ := h'.mp hm'
    exact ⟨⟨hP, hP'⟩, found_found _ _ _ _⟩
  · rintro ⟨⟨hP, hP'⟩, rfl⟩
    exact ⟨(), _, (h _).mpr ⟨hP, rfl⟩, h'.mpr ⟨hP', (found_found _ _ _ _).symm⟩⟩

theorem onInnermost_apply (f : Scope → Scope) :
    onInnermost f r = .ok ((), ⟨Scopes.onInnermost f r.scopes, r.distances⟩) := by
  obtain ⟨scopes, distances⟩ := r
  cases scopes <;> rfl

theorem locate_eq_ok {id : NodeId} {x : String} :
    locate id x r = .ok ((), found r r.scopes [Scopes.record r.scopes id x]) := by
  change Except.ok ((), _) = Except.ok ((), _)
  congr 2
  unfold Scopes.record Scopes.locate? found
  obtain ⟨scopes, distances⟩ := r
  simp only
  cases scopes.findIdx? fun scope => scope.declares x <;> rfl

theorem declare_eq_ok {name : Name} : declare name r = .ok ((), r') ↔
    Scopes.Fresh name.text r.scopes ∧ r' = found r (Scopes.declaring r.scopes name.text) [] := by
  obtain ⟨scopes, distances⟩ := r
  cases scopes with
  | nil =>
      change Except.ok ((), _) = Except.ok ((), _) ↔ _
      simp [Scopes.Fresh, found, Scopes.declaring, Scopes.onInnermost, recordAll, eq_comm]
  | cons scope outer =>
      unfold declare
      rw [bind_eq_ok]
      constructor
      · rintro ⟨_, _, hget, h⟩
        cases hget
        simp only at h
        cases hdeclares : scope.declares name.text with
        | true =>
            rw [hdeclares, if_pos rfl] at h
            cases h
        | false =>
            rw [hdeclares, if_neg Bool.false_ne_true] at h
            rw [onInnermost_apply] at h
            cases h
            exact ⟨hdeclares, rfl⟩
      · rintro ⟨hfresh, rfl⟩
        refine ⟨_, _, rfl, ?_⟩
        simp only
        rw [show scope.declares name.text = false from hfresh, if_neg Bool.false_ne_true]
        rfl

theorem define_eq_ok {name : Name} : define name r = .ok ((), r') ↔
    True ∧ r' = found r (Scopes.defining r.scopes name.text) [] := by
  rw [show define name r = .ok ((), found r (Scopes.defining r.scopes name.text) []) from
    onInnermost_apply _, true_and]
  constructor
  · intro h
    cases h
    rfl
  · rintro rfl
    rfl

theorem introduce_eq_ok {name : Name} : introduce name r = .ok ((), r') ↔
    Scopes.Fresh name.text r.scopes ∧ r' = found r (Scopes.introducing r.scopes name.text) [] := by
  refine (step_eq_ok (fun _ => declare_eq_ok) define_eq_ok).trans ?_
  rw [and_true]
  rfl

theorem introduceAll_eq_ok {names : List Name} : introduceAll names r = .ok ((), r') ↔
    Scopes.FreshAll r.scopes names ∧
      r' = found r (Scopes.introducingAll r.scopes names) [] := by
  induction names generalizing r with
  | nil =>
      change Except.ok ((), r) = Except.ok ((), r') ↔ _
      simp [Scopes.FreshAll, Scopes.introducingAll, found, recordAll, eq_comm]
  | cons name names ih =>
      unfold introduceAll
      rw [step_eq_ok (fun _ => introduce_eq_ok) ih]
      simp [Scopes.FreshAll, Scopes.introducingAll]

theorem read_eq_ok {ref : Reference} : read ref r = .ok ((), r') ↔
    Scopes.Readable ref.name.text r.scopes ∧
      r' = found r r.scopes [Scopes.record r.scopes ref.id ref.name.text] := by
  unfold read
  rw [bind_eq_ok]
  constructor
  · rintro ⟨_, _, hget, h⟩
    cases hget
    cases hscopes : r.scopes with
    | nil =>
        simp only [hscopes] at h
        rw [locate_eq_ok] at h
        cases h
        exact ⟨trivial, by rw [hscopes]⟩
    | cons scope outer =>
        simp only [hscopes] at h
        by_cases hlookup : scope.lookup ref.name.text = some false
        · rw [if_pos hlookup] at h
          cases h
        · rw [if_neg hlookup, locate_eq_ok] at h
          cases h
          exact ⟨hlookup, by rw [hscopes]⟩
  · rintro ⟨hreadable, rfl⟩
    refine ⟨_, _, rfl, ?_⟩
    cases hscopes : r.scopes with
    | nil =>
        simp only
        rw [locate_eq_ok, hscopes]
    | cons scope outer =>
        rw [hscopes] at hreadable
        simp only
        rw [if_neg hreadable, locate_eq_ok, hscopes]

theorem pure_unit_eq_ok : (pure () : Resolve Unit) r = .ok ((), r') ↔
    True ∧ r' = found r r.scopes [] := by
  rw [pure_eq_ok, true_and]
  constructor
  · intro h
    cases h
    rfl
  · rintro rfl
    rfl

theorem not_refuse_eq_ok {fault : ScopeFault} {blamed : Name} :
    ¬(refuse fault blamed : Resolve Unit) r = .ok ((), r') := by
  intro h
  cases h

theorem locate_eq_ok_iff {id : NodeId} {x : String} : locate id x r = .ok ((), r') ↔
    True ∧ r' = found r r.scopes [Scopes.record r.scopes id x] := by
  rw [locate_eq_ok, true_and]
  constructor
  · intro h
    cases h
    rfl
  · rintro rfl
    rfl

mutual

theorem expr_eq_ok (e : Expr) {r r' : Resolution} : expr setting e r = .ok ((), r') ↔
    e.Obeys setting r.scopes ∧ r' = found r r.scopes (e.records r.scopes) := by
  cases e with
  | literal value => exact pure_unit_eq_ok
  | unary op line operand => exact expr_eq_ok operand
  | binary op line left right => exact step_eq_ok (fun _ => expr_eq_ok left) (expr_eq_ok right)
  | logical op line left right => exact step_eq_ok (fun _ => expr_eq_ok left) (expr_eq_ok right)
  | grouping inner => exact expr_eq_ok inner
  | name ref => exact read_eq_ok
  | assign ref value =>
      refine (step_eq_ok (fun _ => expr_eq_ok value) locate_eq_ok_iff).trans ?_
      rw [and_true]
      rfl
  | call callee line arguments =>
      exact step_eq_ok (fun _ => expr_eq_ok callee) (exprs_eq_ok arguments)
  | get object property => exact expr_eq_ok object
  | set object property value =>
      exact step_eq_ok (fun _ => expr_eq_ok value) (expr_eq_ok object)
  | receiver id line =>
      unfold expr Expr.Obeys
      cases hkind : setting.classKind with
      | outside => simp [not_refuse_eq_ok]
      | plain | subclass => simp [locate_eq_ok_iff, Expr.records]
  | inherited id line method =>
      unfold expr Expr.Obeys
      cases hkind : setting.classKind with
      | outside | plain => simp [not_refuse_eq_ok]
      | subclass => simp [locate_eq_ok_iff, Expr.records]

theorem exprs_eq_ok (es : List Expr) {r r' : Resolution} : exprs setting es r = .ok ((), r') ↔
    Expr.ObeysAll setting r.scopes es ∧
      r' = found r r.scopes (Expr.recordsAll r.scopes es) := by
  cases es with
  | nil => exact pure_unit_eq_ok
  | cons e es => exact step_eq_ok (fun _ => expr_eq_ok e) (exprs_eq_ok es)

end

theorem exprOption_eq_ok (e : Option Expr) : exprOption setting e r = .ok ((), r') ↔
    Expr.ObeysOption setting r.scopes e ∧
      r' = found r r.scopes (Expr.recordsOption r.scopes e) := by
  cases e with
  | none => exact pure_unit_eq_ok
  | some e => exact expr_eq_ok e

theorem superclass_eq_ok {className : Name} {ref : Reference} :
    superclass className ref r = .ok ((), r') ↔
      (ref.name.text ≠ className.text ∧ Scopes.Readable ref.name.text r.scopes) ∧
        r' = found r r.scopes [Scopes.record r.scopes ref.id ref.name.text] := by
  unfold superclass
  by_cases hname : ref.name.text = className.text
  · rw [if_pos hname]
    constructor
    · intro h
      cases h
    · rintro ⟨⟨hne, _⟩, _⟩
      exact (hne hname).elim
  · rw [if_neg hname]
    exact read_eq_ok.trans (by simp [hname])

/-- What is resolved in a new scope leaves the scopes around it as they were. -/
theorem inner_eq_ok (names : List String) {m : Resolve Unit} {P : Prop} {Γ : Scopes}
    {rs : List Record}
    (h : ∀ r₁, m ⟨names.map (·, true) :: r.scopes, r.distances⟩ = .ok ((), r₁) ↔
      P ∧ r₁ = found ⟨names.map (·, true) :: r.scopes, r.distances⟩ Γ rs) (hΓ : Γ.tail = r.scopes) :
    (do enter names; m; leave) r = .ok ((), r') ↔ P ∧ r' = found r r.scopes rs := by
  rw [bind_eq_ok]
  constructor
  · rintro ⟨⟨⟩, _, henter, hrest⟩
    cases henter
    obtain ⟨⟨⟩, r₁, hm, hleave⟩ := bind_eq_ok.mp hrest
    obtain ⟨hP, rfl⟩ := (h r₁).mp hm
    cases hleave
    exact ⟨hP, by simp [found, hΓ]⟩
  · rintro ⟨hP, rfl⟩
    refine ⟨(), _, rfl, ?_⟩
    rw [bind_eq_ok]
    refine ⟨(), _, (h _).mpr ⟨hP, rfl⟩, ?_⟩
    change Except.ok ((), _) = _
    simp [found, hΓ]

mutual

theorem stmt_eq_ok (s : Stmt) {setting : Setting} {r r' : Resolution} :
    stmt setting s r = .ok ((), r') ↔
      s.Obeys setting r.scopes ∧ r' = found r (s.after r.scopes) (s.records r.scopes) := by
  cases s with
  | expression e => exact expr_eq_ok e
  | print e => exact expr_eq_ok e
  | var name initial =>
      have hrest {r r' : Resolution} : (do exprOption setting initial; define name) r =
          .ok ((), r') ↔ (Expr.ObeysOption setting r.scopes initial ∧ True) ∧
            r' = found r (Scopes.defining r.scopes name.text)
              (Expr.recordsOption r.scopes initial ++ []) :=
        step_eq_ok (fun _ => exprOption_eq_ok initial) define_eq_ok
      refine (step_eq_ok (fun _ => declare_eq_ok) hrest).trans ?_
      simp only [and_true, List.append_nil, List.nil_append]
      rfl
  | block body =>
      exact inner_eq_ok [] (fun _ => stmts_eq_ok body) (Stmt.tail_afterAll _ _)
  | ifThen condition thenBranch =>
      exact step_eq_ok (fun _ => expr_eq_ok condition) (stmt_eq_ok thenBranch)
  | ifElse condition thenBranch elseBranch =>
      exact step_eq_ok (fun _ => expr_eq_ok condition)
        (step_eq_ok (fun _ => stmt_eq_ok thenBranch) (stmt_eq_ok elseBranch))
  | loop condition body =>
      exact step_eq_ok (fun _ => expr_eq_ok condition) (stmt_eq_ok body)
  | function d =>
      exact step_eq_ok (fun _ => introduce_eq_ok) (function_eq_ok d)
  | giveBack line value =>
      unfold stmt Stmt.Obeys Stmt.after Stmt.records
      cases hbody : setting.body with
      | topLevel => simp [not_refuse_eq_ok]
      | initializer =>
          cases value with
          | none => simpa using exprOption_eq_ok none
          | some e => simp [not_refuse_eq_ok]
      | function | method => simpa using exprOption_eq_ok value
  | classDef name superclass classMethods =>
      cases superclass with
      | none =>
          exact step_eq_ok (fun _ => introduce_eq_ok)
            (inner_eq_ok [receiverWord] (fun _ => methods_eq_ok classMethods) rfl)
      | some ref =>
          let subclass : Setting := { setting with classKind := .subclass }
          have hinner {r r' : Resolution} :
              (do enter [receiverWord]; methods subclass classMethods; leave) r = .ok ((), r') ↔
                FunctionDecl.ObeysAll subclass (Scopes.receiverScope :: r.scopes) classMethods ∧
                  r' = found r r.scopes
                    (FunctionDecl.recordsAll (Scopes.receiverScope :: r.scopes) classMethods) :=
            inner_eq_ok [receiverWord] (fun _ => methods_eq_ok classMethods) rfl
          let Γ (r : Resolution) := Scopes.receiverScope :: Scopes.superclassScope :: r.scopes
          have houter {r r' : Resolution} :
              (do
                enter [superclassWord]
                enter [receiverWord]
                methods subclass classMethods
                leave
                leave) r = .ok ((), r') ↔
                FunctionDecl.ObeysAll subclass (Γ r) classMethods ∧
                  r' = found r r.scopes (FunctionDecl.recordsAll (Γ r) classMethods) := by
            refine Iff.trans ?_ (inner_eq_ok [superclassWord] (fun _ => hinner) rfl)
            simp only [bind_assoc]
          refine (step_eq_ok (fun _ => introduce_eq_ok)
            (step_eq_ok (fun _ => superclass_eq_ok) houter)).trans ?_
          simp only [scopes_found, Stmt.Obeys, and_assoc]
          rfl

theorem stmts_eq_ok (ss : List Stmt) {setting : Setting} {r r' : Resolution} :
    stmts setting ss r = .ok ((), r') ↔ Stmt.ObeysAll setting r.scopes ss ∧
      r' = found r (Stmt.afterAll r.scopes ss) (Stmt.recordsAll r.scopes ss) := by
  cases ss with
  | nil => exact pure_unit_eq_ok
  | cons s ss => exact step_eq_ok (fun _ => stmt_eq_ok s) (stmts_eq_ok ss)

theorem function_eq_ok (d : FunctionDecl) {setting : Setting} {r r' : Resolution} :
    function setting d r = .ok ((), r') ↔
      d.Obeys setting r.scopes ∧ r' = found r r.scopes (d.records r.scopes) := by
  cases d with
  | mk name parameters body =>
      have hbody {r r' : Resolution} :
          (do introduceAll parameters; stmts setting body) r = .ok ((), r') ↔
            (Scopes.FreshAll r.scopes parameters ∧
              Stmt.ObeysAll setting (Scopes.introducingAll r.scopes parameters) body) ∧
            r' = found r (Stmt.afterAll (Scopes.introducingAll r.scopes parameters) body)
              (Stmt.recordsAll (Scopes.introducingAll r.scopes parameters) body) :=
        step_eq_ok (fun _ => introduceAll_eq_ok) (stmts_eq_ok body)
      refine Iff.trans ?_ (inner_eq_ok [] (fun _ => hbody) (by simp))
      unfold function
      simp only [bind_assoc]

theorem methods_eq_ok (ds : List FunctionDecl) {setting : Setting} {r r' : Resolution} :
    methods setting ds r = .ok ((), r') ↔ FunctionDecl.ObeysAll setting r.scopes ds ∧
      r' = found r r.scopes (FunctionDecl.recordsAll r.scopes ds) := by
  cases ds with
  | nil => exact pure_unit_eq_ok
  | cons d ds => exact step_eq_ok (fun _ => function_eq_ok d) (methods_eq_ok ds)

end

end Resolve

/-- A program is resolved just when it obeys the rules of scoping; what is found for its references
is then what is said of them. -/
theorem resolve_eq_ok {program : List Stmt} {distances : Distances} :
    resolve program = .ok distances ↔ Stmt.ObeysAll ⟨.topLevel, .outside⟩ [] program ∧
      distances = recordAll ∅ (Stmt.recordsAll [] program) := by
  unfold resolve
  constructor
  · intro h
    cases hstmts : Resolve.stmts ⟨.topLevel, .outside⟩ program ⟨[], ∅⟩ with
    | error e =>
        rw [hstmts] at h
        cases h
    | ok p =>
        obtain ⟨⟨⟩, r⟩ := p
        rw [hstmts] at h
        cases h
        obtain ⟨hobeys, rfl⟩ := (Resolve.stmts_eq_ok program).mp hstmts
        exact ⟨hobeys, rfl⟩
  · rintro ⟨hobeys, rfl⟩
    rw [(Resolve.stmts_eq_ok program).mpr ⟨hobeys, rfl⟩]
    rfl

end ScopedScript
