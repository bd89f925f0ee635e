import ScopedScript.Proofs.Relabelling.Syntax

/-!
# Scopes under other numbers and lines

A program in which references have other numbers and words stand on other lines breaks the rules of
scoping in the same place, or obeys them; the distances of its references are then the same ones. No
two references may be given one number for this.
-/

namespace ScopedScript

/-- What is known of references by their numbers is known of them by their other numbers. -/
def Relabelling.Carries (g : Relabelling) (D D' : Distances) : Prop :=
  ∀ id, D'[g.node id]? = D[id]?

namespace Relabelling.Carries

variable {g : Relabelling} {D D' D₁ D₁' : Distances}

theorem empty : g.Carries ∅ ∅ := fun _ =>
  Std.TreeMap.getElem?_emptyc.trans Std.TreeMap.getElem?_emptyc.symm

theorem union (h : g.Carries D D') (h₁ : g.Carries D₁ D₁') : g.Carries (D ∪ D₁) (D' ∪ D₁') := by
  intro id
  rw [Std.TreeMap.getElem?_union, Std.TreeMap.getElem?_union, h id, h₁ id]

theorem insert (h : g.Carries D D') (hinjective : Function.Injective g.node) (id : NodeId)
    (distance : Nat) : g.Carries (D.insert id distance) (D'.insert (g.node id) distance) := by
  intro id'
  rw [Std.TreeMap.getElem?_insert, Std.TreeMap.getElem?_insert]
  simp only [Nat.compare_eq_eq, hinjective.eq_iff, h id']

end Relabelling.Carries

/-- A fault of scoping for which a word on another line is blamed. -/
def ScopeError.relabel (g : Relabelling) (e : ScopeError) : ScopeError :=
  { e with blamed := e.blamed.relabel g }

@[simp] theorem ScopeError.relabel_renumber (node : NodeId → NodeId) (e : ScopeError) :
    e.relabel (.renumber node) = e := rfl

namespace Resolve

variable {g : Relabelling} {m m' k k' : Resolve Unit}

/-- Two ends of resolving that are alike: the same scopes, and the same distances for references
with other numbers, or the same fault. -/
inductive EndsAlike (g : Relabelling) :
    Except ScopeError (Unit × Resolution) → Except ScopeError (Unit × Resolution) → Prop where
  | ok {Γ : Scopes} {D D' : Distances} : g.Carries D D' →
      EndsAlike g (.ok ((), ⟨Γ, D⟩)) (.ok ((), ⟨Γ, D'⟩))
  | error (e : ScopeError) : EndsAlike g (.error e) (.error (e.relabel g))

/-- Two trees are resolved alike. -/
def Relabels (g : Relabelling) (m m' : Resolve Unit) : Prop :=
  ∀ Γ D D', g.Carries D D' → EndsAlike g (m ⟨Γ, D⟩) (m' ⟨Γ, D'⟩)

namespace Relabels

theorem bind (h : Relabels g m m') (hk : Relabels g k k') :
    Relabels g (do m; k) (do m'; k') := by
  intro Γ D D' hD
  change EndsAlike g (m ⟨Γ, D⟩ >>= fun p => k p.2) (m' ⟨Γ, D'⟩ >>= fun p => k' p.2)
  have hend := h Γ D D' hD
  generalize m ⟨Γ, D⟩ = o at hend
  generalize m' ⟨Γ, D'⟩ = o' at hend
  cases hend with
  | ok hD₁ => exact hk _ _ _ hD₁
  | error e => exact .error e

theorem pure : Relabels g (pure ()) (Pure.pure ()) := fun _ _ _ hD => .ok hD

theorem refuse (fault : ScopeFault) (blamed : Name) :
    Relabels g (Resolve.refuse fault blamed) (Resolve.refuse fault (blamed.relabel g)) :=
  fun _ _ _ _ => .error ⟨fault, blamed⟩

end Relabels

theorem relabels_enter (names : List String) : Relabels g (enter names) (enter names) :=
  fun _ _ _ hD => .ok hD

theorem relabels_leave : Relabels g leave leave := fun _ _ _ hD => .ok hD

theorem relabels_onInnermost (f : Scope → Scope) :
    Relabels g (onInnermost f) (onInnermost f) := by
  intro Γ D D' hD
  rw [onInnermost_apply, onInnermost_apply]
  exact .ok hD

theorem relabels_declare (name : Name) :
    Relabels g (declare name) (declare (name.relabel g)) := by
  intro Γ D D' hD
  cases Γ with
  | nil => exact .ok hD
  | cons scope outer =>
      have hrest : Relabels g
          (if scope.declares name.text then Resolve.refuse .redeclared name
            else onInnermost fun scope => (name.text, false) :: scope)
          (if scope.declares name.text then Resolve.refuse .redeclared (name.relabel g)
            else onInnermost fun scope => (name.text, false) :: scope) := by
        split
        · exact .refuse _ _
        · exact relabels_onInnermost _
      exact hrest (scope :: outer) D D' hD

theorem relabels_define (name : Name) : Relabels g (define name) (define (name.relabel g)) :=
  relabels_onInnermost _

theorem relabels_introduce (name : Name) :
    Relabels g (introduce name) (introduce (name.relabel g)) :=
  (relabels_declare name).bind (relabels_define name)

theorem relabels_introduceAll (names : List Name) :
    Relabels g (introduceAll names) (introduceAll (names.map (Name.relabel g))) := by
  induction names with
  | nil => exact .pure
  | cons name names ih => exact (relabels_introduce name).bind ih

theorem relabels_locate (hinjective : Function.Injective g.node) (id : NodeId) (x : String) :
    Relabels g (locate id x) (locate (g.node id) x) := by
  intro Γ D D' hD
  rw [locate_eq_ok, locate_eq_ok]
  refine .ok ?_
  unfold Scopes.record
  cases Scopes.locate? Γ x with
  | none => exact hD
  | some distance => exact hD.insert hinjective id distance

theorem relabels_read (hinjective : Function.Injective g.node) (ref : Reference) :
    Relabels g (read ref) (read (ref.relabel g)) := by
  intro Γ D D' hD
  have hlocate := relabels_locate hinjective ref.id ref.name.text
  cases Γ with
  | nil => exact hlocate [] D D' hD
  | cons scope outer =>
      have hrest : Relabels g
          (do
            if scope.lookup ref.name.text = some false then
              Resolve.refuse .readInOwnInitializer ref.name
            locate ref.id ref.name.text)
          (do
            if scope.lookup ref.name.text = some false then
              Resolve.refuse .readInOwnInitializer (ref.name.relabel g)
            locate (g.node ref.id) ref.name.text) := by
        split
        · exact Relabels.bind (.refuse _ _) hlocate
        · exact hlocate
      exact hrest (scope :: outer) D D' hD

mutual

theorem relabels_expr (hinjective : Function.Injective g.node) (setting : Setting) (e : Expr) :
    Relabels g (expr setting e) (expr setting (e.relabel g)) := by
  cases e with
  | literal value => exact .pure
  | unary op line operand => exact relabels_expr hinjective setting operand
  | binary op line left right =>
      exact (relabels_expr hinjective setting left).bind (relabels_expr hinjective setting right)
  | logical op line left right =>
      exact (relabels_expr hinjective setting left).bind (relabels_expr hinjective setting right)
  | grouping inner => exact relabels_expr hinjective setting inner
  | name ref => exact relabels_read hinjective ref
  | assign ref value =>
      exact (relabels_expr hinjective setting value).bind (relabels_locate hinjective _ _)
  | call callee line arguments =>
      exact (relabels_expr hinjective setting callee).bind
        (relabels_exprs hinjective setting arguments)
  | get object property => exact relabels_expr hinjective setting object
  | set object property value =>
      exact (relabels_expr hinjective setting value).bind (relabels_expr hinjective setting object)
  | receiver id line =>
      unfold Expr.relabel expr
      cases setting.classKind with
      | outside => exact .refuse .receiverOutsideClass ⟨receiverWord, line⟩
      | plain | subclass => exact relabels_locate hinjective id receiverWord
  | inherited id line method =>
      unfold Expr.relabel expr
      cases setting.classKind with
      | outside => exact .refuse .superOutsideClass ⟨superclassWord, line⟩
      | plain => exact .refuse .superWithoutSuperclass ⟨superclassWord, line⟩
      | subclass => exact relabels_locate hinjective id superclassWord

theorem relabels_exprs (hinjective : Function.Injective g.node) (setting : Setting)
    (es : List Expr) : Relabels g (exprs setting es) (exprs setting (Expr.relabelAll g es)) := by
  cases es with
  | nil => exact .pure
  | cons e es =>
      exact (relabels_expr hinjective setting e).bind (relabels_exprs hinjective setting es)

end

theorem relabels_exprOption (hinjective : Function.Injective g.node) (setting : Setting)
    (e : Option Expr) :
    Relabels g (exprOption setting e) (exprOption setting (e.map (Expr.relabel g))) := by
  cases e with
  | none => exact .pure
  | some e => exact relabels_expr hinjective setting e

theorem relabels_superclass (hinjective : Function.Injective g.node) (className : Name)
    (ref : Reference) :
    Relabels g (superclass className ref) (superclass (className.relabel g) (ref.relabel g)) := by
  have hread := relabels_read hinjective ref
  change Relabels g
    (do
      if ref.name.text = className.text then Resolve.refuse .inheritsFromItself ref.name
      read ref)
    (do
      if ref.name.text = className.text then
        Resolve.refuse .inheritsFromItself (ref.name.relabel g)
      read (ref.relabel g))
  split
  · exact Relabels.bind (.refuse _ _) hread
  · exact hread

mutual

theorem relabels_stmt (hinjective : Function.Injective g.node) (setting : Setting) (s : Stmt) :
    Relabels g (stmt setting s) (stmt setting (s.relabel g)) := by
  cases s with
  | expression e => exact relabels_expr hinjective setting e
  | print e => exact relabels_expr hinjective setting e
  | var name initial =>
      exact (relabels_declare name).bind
        ((relabels_exprOption hinjective setting initial).bind (relabels_define name))
  | block body =>
      exact (relabels_enter []).bind
        ((relabels_stmts hinjective setting body).bind relabels_leave)
  | ifThen condition thenBranch =>
      exact (relabels_expr hinjective setting condition).bind
        (relabels_stmt hinjective setting thenBranch)
  | ifElse condition thenBranch elseBranch =>
      exact (relabels_expr hinjective setting condition).bind
        ((relabels_stmt hinjective setting thenBranch).bind
          (relabels_stmt hinjective setting elseBranch))
  | loop condition body =>
      exact (relabels_expr hinjective setting condition).bind
        (relabels_stmt hinjective setting body)
  | function d =>
      cases d with
      | mk name parameters body =>
          exact (relabels_introduce name).bind
            (relabels_function hinjective _ ⟨name, parameters, body⟩)
  | giveBack line value =>
      have hvalue := relabels_exprOption hinjective setting value
      unfold Stmt.relabel stmt
      cases hbody : setting.body with
      | topLevel => exact .refuse .returnOutsideFunction ⟨"return", line⟩
      | initializer =>
          cases value with
          | none => exact hvalue
          | some e => exact .refuse .valueFromInitializer ⟨"return", line⟩
      | function | method => cases value <;> exact hvalue
  | classDef name superclass classMethods =>
      cases superclass with
      | none =>
          exact (relabels_introduce name).bind ((relabels_enter _).bind
            ((relabels_methods hinjective _ classMethods).bind relabels_leave))
      | some ref =>
          exact (relabels_introduce name).bind ((relabels_superclass hinjective name ref).bind
            ((relabels_enter _).bind ((relabels_enter _).bind
              ((relabels_methods hinjective _ classMethods).bind
                (relabels_leave.bind relabels_leave)))))

theorem relabels_stmts (hinjective : Function.Injective g.node) (setting : Setting)
    (ss : List Stmt) : Relabels g (stmts setting ss) (stmts setting (Stmt.relabelAll g ss)) := by
  cases ss with
  | nil => exact .pure
  | cons s ss =>
      exact (relabels_stmt hinjective setting s).bind (relabels_stmts hinjective setting ss)

theorem relabels_function (hinjective : Function.Injective g.node) (setting : Setting)
    (d : FunctionDecl) : Relabels g (function setting d) (function setting (d.relabel g)) := by
  cases d with
  | mk name parameters body =>
      exact (relabels_enter []).bind ((relabels_introduceAll parameters).bind
        ((relabels_stmts hinjective setting body).bind relabels_leave))

theorem relabels_methods (hinjective : Function.Injective g.node) (setting : Setting)
    (ds : List FunctionDecl) :
    Relabels g (methods setting ds) (methods setting (FunctionDecl.relabelAll g ds)) := by
  cases ds with
  | nil => exact .pure
  | cons d ds =>
      cases d with
      | mk name parameters body =>
          exact (relabels_function hinjective _ ⟨name, parameters, body⟩).bind
            (relabels_methods hinjective setting ds)

end

end Resolve

/-- A program with other numbers and lines is resolved like the program itself. -/
theorem resolve_relabelAll {g : Relabelling} (hinjective : Function.Injective g.node)
    (program : List Stmt) :
    (∃ D D', resolve program = .ok D ∧ resolve (Stmt.relabelAll g program) = .ok D' ∧
      g.Carries D D') ∨
    ∃ e, resolve program = .error e ∧
      resolve (Stmt.relabelAll g program) = .error (e.relabel g) := by
  have hend := Resolve.relabels_stmts hinjective ⟨.topLevel, .outside⟩ program [] ∅ ∅ .empty
  unfold resolve
  generalize Resolve.stmts ⟨.topLevel, .outside⟩ program ⟨[], ∅⟩ = o at hend
  generalize Resolve.stmts ⟨.topLevel, .outside⟩ (Stmt.relabelAll g program) ⟨[], ∅⟩ = o' at hend
  cases hend with
  | ok hD => exact .inl ⟨_, _, rfl, rfl, hD⟩
  | error e => exact .inr ⟨e, rfl, rfl⟩

end ScopedScript
