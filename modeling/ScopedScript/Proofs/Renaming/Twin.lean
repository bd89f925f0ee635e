import ScopedScript.Proofs.Renaming.Local
import ScopedScript.Proofs.Scope.Recorded

/-!
# Twins of programs

Two programs are twins if they differ in one exchange of two names, made in the scopes that are
marked and in the references that lead to these. A program in which a local declaration is renamed
to a name that does not occur in it is a twin of the original: exchanging the two names is then the
same as renaming. Unlike renaming, exchanging loses nothing.
-/

namespace ScopedScript

/-- For each scope that encloses a place, innermost first, whether names are exchanged in it. -/
abbrev Marks := List Bool

/-- Whether names are exchanged in the scope at a distance. Beyond the enclosing scopes lies the
global scope, which is not marked. -/
def Marks.at (marks : Marks) (distance : Nat) : Bool := marks.getD distance false

namespace Renaming

variable (ρ : Renaming)

/-- The old name for the new one, the new name for the old one, and any other name for itself. -/
def swap (x : String) : String := if x = ρ.old then ρ.new else if x = ρ.new then ρ.old else x

/-- A name in a scope that may be marked. -/
def exchange (marked : Bool) (x : String) : String := if marked then ρ.swap x else x

/-- A declared name in a scope that may be marked. -/
def twinName (marked : Bool) (name : Name) : Name :=
  { name with text := ρ.exchange marked name.text }

/-- A reference, whose name is exchanged if its distance leads to a marked scope. -/
def twinReference (marks : Marks) (ref : Reference) : Reference :=
  match ρ.distances[ref.id]? with
  | some distance => { ref with name := ρ.twinName (marks.at distance) ref.name }
  | none => ref

variable {ρ} {b c : Bool} {x y : String} {marks : Marks} {ref : Reference}

theorem swap_swap : ρ.swap (ρ.swap x) = x := by
  unfold swap
  by_cases hold : x = ρ.old
  · by_cases hsame : ρ.new = ρ.old <;> simp [hold, hsame]
  · by_cases hnew : x = ρ.new <;> simp [hold, hnew]

theorem exchange_exchange : ρ.exchange b (ρ.exchange b x) = x := by
  cases b with
  | true => exact swap_swap
  | false => rfl

theorem exchange_inj : ρ.exchange b x = ρ.exchange b y ↔ x = y := by
  constructor
  · intro h
    rw [← exchange_exchange (ρ := ρ) (b := b) (x := x), h, exchange_exchange]
  · rintro rfl
    rfl

theorem exchange_of_ne (hold : x ≠ ρ.old) (hnew : x ≠ ρ.new) : ρ.exchange b x = x := by
  cases b with
  | true =>
      unfold exchange swap
      rw [if_pos rfl, if_neg hold, if_neg hnew]
  | false => rfl

theorem twinName_false (name : Name) : ρ.twinName false name = name := rfl

theorem twinReference_of_ne (hold : ref.name.text ≠ ρ.old) (hnew : ref.name.text ≠ ρ.new) :
    ρ.twinReference marks ref = ref := by
  unfold twinReference twinName
  cases ρ.distances[ref.id]? with
  | none => rfl
  | some distance => simp only [exchange_of_ne hold hnew]

theorem twinReference_line : (ρ.twinReference marks ref).name.line = ref.name.line := by
  unfold twinReference
  cases ρ.distances[ref.id]? <;> rfl

theorem twinReference_of_unmarked (hmarks : ∀ d, marks.at d = false) :
    ρ.twinReference marks ref = ref := by
  unfold twinReference
  cases ρ.distances[ref.id]? with
  | none => rfl
  | some distance => simp [hmarks, twinName_false]

end Renaming

mutual

/-- Statements that differ in the names of marked scopes. No function or class is declared under an
exchanged name. -/
inductive Stmt.Twin (ρ : Renaming) : Marks → Stmt → Stmt → Prop where
  | expression {marks : Marks} {e} : Stmt.Twin ρ marks (.expression e)
      (.expression (e.mapReferences (ρ.twinReference marks)))
  | print {marks : Marks} {e} : Stmt.Twin ρ marks (.print e)
      (.print (e.mapReferences (ρ.twinReference marks)))
  | var {marks : Marks} {name initial} : Stmt.Twin ρ marks (.var name initial)
      (.var (ρ.twinName (marks.at 0) name)
        (Expr.mapReferencesOption (ρ.twinReference marks) initial))
  | block {marks : Marks} {b body body'} : Stmt.TwinAll ρ (b :: marks) body body' →
      Stmt.Twin ρ marks (.block body) (.block body')
  | ifThen {marks : Marks} {condition s s'} : Stmt.Twin ρ marks s s' →
      Stmt.Twin ρ marks (.ifThen condition s)
        (.ifThen (condition.mapReferences (ρ.twinReference marks)) s')
  | ifElse {marks : Marks} {condition s s' t t'} : Stmt.Twin ρ marks s s' → Stmt.Twin ρ marks t t' →
      Stmt.Twin ρ marks (.ifElse condition s t)
        (.ifElse (condition.mapReferences (ρ.twinReference marks)) s' t')
  | loop {marks : Marks} {condition s s'} : Stmt.Twin ρ marks s s' →
      Stmt.Twin ρ marks (.loop condition s)
        (.loop (condition.mapReferences (ρ.twinReference marks)) s')
  | function {marks : Marks} {d d'} : ρ.exchange (marks.at 0) d.name.text = d.name.text →
      FunctionDecl.Twin ρ marks d d' → Stmt.Twin ρ marks (.function d) (.function d')
  | giveBack {marks : Marks} {line value} : Stmt.Twin ρ marks (.giveBack line value)
      (.giveBack line (Expr.mapReferencesOption (ρ.twinReference marks) value))
  | plainClass {marks : Marks} {name ds ds'} : ρ.exchange (marks.at 0) name.text = name.text →
      FunctionDecl.TwinAll ρ (false :: marks) ds ds' →
      Stmt.Twin ρ marks (.classDef name none ds) (.classDef name none ds')
  | subclass {marks : Marks} {name ref ds ds'} : ρ.exchange (marks.at 0) name.text = name.text →
      FunctionDecl.TwinAll ρ (false :: false :: marks) ds ds' →
      Stmt.Twin ρ marks (.classDef name (some ref) ds)
        (.classDef name (some (ρ.twinReference marks ref)) ds')

/-- Lists of statements that differ in the names of marked scopes. -/
inductive Stmt.TwinAll (ρ : Renaming) : Marks → List Stmt → List Stmt → Prop where
  | nil {marks : Marks} : Stmt.TwinAll ρ marks [] []
  | cons {marks : Marks} {s s' ss ss'} : Stmt.Twin ρ marks s s' → Stmt.TwinAll ρ marks ss ss' →
      Stmt.TwinAll ρ marks (s :: ss) (s' :: ss')

/-- Functions that differ in the names of marked scopes, of which their own may be one. -/
inductive FunctionDecl.Twin (ρ : Renaming) : Marks → FunctionDecl → FunctionDecl → Prop where
  | mk {marks : Marks} {b name parameters body body'} : Stmt.TwinAll ρ (b :: marks) body body' →
      FunctionDecl.Twin ρ marks ⟨name, parameters, body⟩
        ⟨name, parameters.map (ρ.twinName b), body'⟩

/-- Lists of functions that differ in the names of marked scopes. -/
inductive FunctionDecl.TwinAll (ρ : Renaming) :
    Marks → List FunctionDecl → List FunctionDecl → Prop where
  | nil {marks : Marks} : FunctionDecl.TwinAll ρ marks [] []
  | cons {marks : Marks} {d d' ds ds'} : FunctionDecl.Twin ρ marks d d' →
      FunctionDecl.TwinAll ρ marks ds ds' → FunctionDecl.TwinAll ρ marks (d :: ds) (d' :: ds')

end

section Inversion

variable {ρ : Renaming} {marks : Marks} {s s₁ s₂ : Stmt} {condition e : Expr} {name : Name}
  {body : List Stmt} {d : FunctionDecl} {ds : List FunctionDecl}

theorem Stmt.Twin.eq_of_expression (h : Stmt.Twin ρ marks (.expression e) s) :
    s = .expression (e.mapReferences (ρ.twinReference marks)) := by
  cases h
  rfl

theorem Stmt.Twin.eq_of_print (h : Stmt.Twin ρ marks (.print e) s) :
    s = .print (e.mapReferences (ρ.twinReference marks)) := by
  cases h
  rfl

theorem Stmt.Twin.eq_of_var {initial : Option Expr} (h : Stmt.Twin ρ marks (.var name initial) s) :
    s = .var (ρ.twinName (marks.at 0) name)
      (Expr.mapReferencesOption (ρ.twinReference marks) initial) := by
  cases h
  rfl

theorem Stmt.Twin.eq_of_giveBack {line : Nat} {value : Option Expr}
    (h : Stmt.Twin ρ marks (.giveBack line value) s) :
    s = .giveBack line (Expr.mapReferencesOption (ρ.twinReference marks) value) := by
  cases h
  rfl

theorem Stmt.Twin.exists_of_block (h : Stmt.Twin ρ marks (.block body) s) :
    ∃ b body', s = .block body' ∧ Stmt.TwinAll ρ (b :: marks) body body' := by
  cases h with
  | block hbody => exact ⟨_, _, rfl, hbody⟩

theorem Stmt.Twin.exists_of_ifThen (h : Stmt.Twin ρ marks (.ifThen condition s₁) s) :
    ∃ s₁', s = .ifThen (condition.mapReferences (ρ.twinReference marks)) s₁' ∧
      Stmt.Twin ρ marks s₁ s₁' := by
  cases h with
  | ifThen hthen => exact ⟨_, rfl, hthen⟩

theorem Stmt.Twin.exists_of_ifElse (h : Stmt.Twin ρ marks (.ifElse condition s₁ s₂) s) :
    ∃ s₁' s₂', s = .ifElse (condition.mapReferences (ρ.twinReference marks)) s₁' s₂' ∧
      Stmt.Twin ρ marks s₁ s₁' ∧ Stmt.Twin ρ marks s₂ s₂' := by
  cases h with
  | ifElse hthen helse => exact ⟨_, _, rfl, hthen, helse⟩

theorem Stmt.Twin.exists_of_loop (h : Stmt.Twin ρ marks (.loop condition s₁) s) :
    ∃ s₁', s = .loop (condition.mapReferences (ρ.twinReference marks)) s₁' ∧
      Stmt.Twin ρ marks s₁ s₁' := by
  cases h with
  | loop hbody => exact ⟨_, rfl, hbody⟩

theorem Stmt.Twin.exists_of_function (h : Stmt.Twin ρ marks (.function d) s) :
    ∃ d', s = .function d' ∧ ρ.exchange (marks.at 0) d.name.text = d.name.text ∧
      FunctionDecl.Twin ρ marks d d' := by
  cases h with
  | function hname hd => exact ⟨_, rfl, hname, hd⟩

theorem Stmt.Twin.exists_of_plainClass (h : Stmt.Twin ρ marks (.classDef name none ds) s) :
    ∃ ds', s = .classDef name none ds' ∧ ρ.exchange (marks.at 0) name.text = name.text ∧
      FunctionDecl.TwinAll ρ (false :: marks) ds ds' := by
  cases h with
  | plainClass hname hds => exact ⟨_, rfl, hname, hds⟩

theorem Stmt.Twin.exists_of_subclass {ref : Reference}
    (h : Stmt.Twin ρ marks (.classDef name (some ref) ds) s) :
    ∃ ds', s = .classDef name (some (ρ.twinReference marks ref)) ds' ∧
      ρ.exchange (marks.at 0) name.text = name.text ∧
      FunctionDecl.TwinAll ρ (false :: false :: marks) ds ds' := by
  cases h with
  | subclass hname hds => exact ⟨_, rfl, hname, hds⟩

theorem FunctionDecl.Twin.name_eq {d' : FunctionDecl} (h : FunctionDecl.Twin ρ marks d d') :
    d'.name = d.name := by
  cases h
  rfl

end Inversion

section Identity

variable {f g : Reference → Reference}

mutual

theorem Expr.mapReferences_id (e : Expr) (hf : ∀ ref, f ref = ref) : e.mapReferences f = e := by
  cases e with
  | literal _ | receiver _ _ | inherited _ _ _ => rfl
  | unary _ _ operand => rw [Expr.mapReferences, operand.mapReferences_id hf]
  | binary _ _ left right | logical _ _ left right =>
      rw [Expr.mapReferences, left.mapReferences_id hf, right.mapReferences_id hf]
  | grouping inner => rw [Expr.mapReferences, inner.mapReferences_id hf]
  | name ref => rw [Expr.mapReferences, hf]
  | assign ref value => rw [Expr.mapReferences, hf, value.mapReferences_id hf]
  | call callee _ arguments =>
      rw [Expr.mapReferences, callee.mapReferences_id hf, Expr.mapReferencesAll_id arguments hf]
  | get object _ => rw [Expr.mapReferences, object.mapReferences_id hf]
  | set object _ value =>
      rw [Expr.mapReferences, object.mapReferences_id hf, value.mapReferences_id hf]

theorem Expr.mapReferencesAll_id (es : List Expr) (hf : ∀ ref, f ref = ref) :
    Expr.mapReferencesAll f es = es := by
  cases es with
  | nil => rfl
  | cons e es =>
      rw [Expr.mapReferencesAll, e.mapReferences_id hf, Expr.mapReferencesAll_id es hf]

end

theorem Expr.mapReferencesOption_id (e : Option Expr) (hf : ∀ ref, f ref = ref) :
    Expr.mapReferencesOption f e = e := by
  cases e with
  | none => rfl
  | some e => rw [Expr.mapReferencesOption, e.mapReferences_id hf]

end Identity

section Unmarked

variable {ρ : Renaming} {marks : Marks}

theorem Marks.at_cons_of_unmarked (hmarks : ∀ d, marks.at d = false) (d : Nat) :
    Marks.at (false :: marks) d = false := by
  cases d with
  | zero => rfl
  | succ d => exact hmarks d

theorem Expr.twin_self (e : Expr) (hmarks : ∀ d, marks.at d = false) :
    e.mapReferences (ρ.twinReference marks) = e :=
  e.mapReferences_id fun _ => Renaming.twinReference_of_unmarked hmarks

theorem Expr.twinOption_self (e : Option Expr) (hmarks : ∀ d, marks.at d = false) :
    Expr.mapReferencesOption (ρ.twinReference marks) e = e :=
  Expr.mapReferencesOption_id e fun _ => Renaming.twinReference_of_unmarked hmarks

section Parts

variable {condition : Expr} {s s' t t' : Stmt} {ds ds' : List FunctionDecl} {name : Name}

theorem Stmt.Twin.ifThen_of_unmarked (hmarks : ∀ d, marks.at d = false)
    (h : Stmt.Twin ρ marks s s') :
    Stmt.Twin ρ marks (.ifThen condition s) (.ifThen condition s') := by
  have hif : Stmt.Twin ρ marks (.ifThen condition s)
      (.ifThen (condition.mapReferences (ρ.twinReference marks)) s') := .ifThen h
  rwa [condition.twin_self hmarks] at hif

theorem Stmt.Twin.ifElse_of_unmarked (hmarks : ∀ d, marks.at d = false)
    (h : Stmt.Twin ρ marks s s') (h' : Stmt.Twin ρ marks t t') :
    Stmt.Twin ρ marks (.ifElse condition s t) (.ifElse condition s' t') := by
  have hif : Stmt.Twin ρ marks (.ifElse condition s t)
      (.ifElse (condition.mapReferences (ρ.twinReference marks)) s' t') := .ifElse h h'
  rwa [condition.twin_self hmarks] at hif

theorem Stmt.Twin.loop_of_unmarked (hmarks : ∀ d, marks.at d = false)
    (h : Stmt.Twin ρ marks s s') : Stmt.Twin ρ marks (.loop condition s) (.loop condition s') := by
  have hloop : Stmt.Twin ρ marks (.loop condition s)
      (.loop (condition.mapReferences (ρ.twinReference marks)) s') := .loop h
  rwa [condition.twin_self hmarks] at hloop

theorem Stmt.Twin.classDef_of_unmarked {superclass : Option Reference}
    (hmarks : ∀ d, marks.at d = false)
    (h : ∀ marks, (∀ d, Marks.at marks d = false) → FunctionDecl.TwinAll ρ marks ds ds') :
    Stmt.Twin ρ marks (.classDef name superclass ds) (.classDef name superclass ds') := by
  have hname : ρ.exchange (marks.at 0) name.text = name.text := by
    rw [hmarks]
    rfl
  have hinner := Marks.at_cons_of_unmarked hmarks
  cases superclass with
  | none => exact .plainClass hname (h _ hinner)
  | some ref =>
      have hclass : Stmt.Twin ρ marks (.classDef name (some ref) ds)
          (.classDef name (some (ρ.twinReference marks ref)) ds') :=
        .subclass hname (h _ (Marks.at_cons_of_unmarked hinner))
      rwa [Renaming.twinReference_of_unmarked hmarks] at hclass

theorem FunctionDecl.Twin.of_body {parameters : List Name} {body body' : List Stmt}
    (h : Stmt.TwinAll ρ (false :: marks) body body') :
    FunctionDecl.Twin ρ marks ⟨name, parameters, body⟩ ⟨name, parameters, body'⟩ := by
  have hfunction : FunctionDecl.Twin ρ marks ⟨name, parameters, body⟩
      ⟨name, parameters.map (ρ.twinName false), body'⟩ := .mk h
  rwa [show ρ.twinName false = id from rfl, List.map_id] at hfunction

end Parts

mutual

/-- Where no scope is marked, each statement is its own twin. -/
theorem Stmt.twin_self (s : Stmt) {marks : Marks} (hmarks : ∀ d, marks.at d = false) :
    Stmt.Twin ρ marks s s := by
  cases s with
  | expression e =>
      have h : Stmt.Twin ρ marks (.expression e)
          (.expression (e.mapReferences (ρ.twinReference marks))) := .expression
      rwa [e.twin_self hmarks] at h
  | print e =>
      have h : Stmt.Twin ρ marks (.print e)
          (.print (e.mapReferences (ρ.twinReference marks))) := .print
      rwa [e.twin_self hmarks] at h
  | var name initial =>
      have h : Stmt.Twin ρ marks (.var name initial)
          (.var (ρ.twinName (marks.at 0) name)
            (Expr.mapReferencesOption (ρ.twinReference marks) initial)) := .var
      rwa [Expr.twinOption_self initial hmarks, hmarks, Renaming.twinName_false] at h
  | block body => exact .block (Stmt.twinAll_self body (Marks.at_cons_of_unmarked hmarks))
  | ifThen condition thenBranch => exact .ifThen_of_unmarked hmarks (thenBranch.twin_self hmarks)
  | ifElse condition thenBranch elseBranch =>
      exact .ifElse_of_unmarked hmarks (thenBranch.twin_self hmarks) (elseBranch.twin_self hmarks)
  | loop condition body => exact .loop_of_unmarked hmarks (body.twin_self hmarks)
  | function d =>
      refine .function ?_ (FunctionDecl.twin_self d hmarks)
      rw [hmarks]
      rfl
  | giveBack line value =>
      have h : Stmt.Twin ρ marks (.giveBack line value)
          (.giveBack line (Expr.mapReferencesOption (ρ.twinReference marks) value)) := .giveBack
      rwa [Expr.twinOption_self value hmarks] at h
  | classDef name superclass methods =>
      exact .classDef_of_unmarked hmarks fun _ hinner => FunctionDecl.twinAll_self methods hinner

theorem Stmt.twinAll_self (ss : List Stmt) {marks : Marks} (hmarks : ∀ d, marks.at d = false) :
    Stmt.TwinAll ρ marks ss ss := by
  cases ss with
  | nil => exact .nil
  | cons s ss => exact .cons (s.twin_self hmarks) (Stmt.twinAll_self ss hmarks)

theorem FunctionDecl.twin_self (d : FunctionDecl) {marks : Marks}
    (hmarks : ∀ d, marks.at d = false) : FunctionDecl.Twin ρ marks d d := by
  cases d with
  | mk name parameters body =>
      exact .of_body (Stmt.twinAll_self body (Marks.at_cons_of_unmarked hmarks))

theorem FunctionDecl.twinAll_self (ds : List FunctionDecl) {marks : Marks}
    (hmarks : ∀ d, marks.at d = false) : FunctionDecl.TwinAll ρ marks ds ds := by
  cases ds with
  | nil => exact .nil
  | cons d ds => exact .cons (FunctionDecl.twin_self d hmarks) (FunctionDecl.twinAll_self ds hmarks)

end

end Unmarked

end ScopedScript
