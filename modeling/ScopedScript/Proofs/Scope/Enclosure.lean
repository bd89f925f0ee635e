import ScopedScript.Proofs.Scope.Nesting
import ScopedScript.Syntax.Occurrences

/-!
# The scopes around a place

Which blocks, functions and classes a statement of a program stands in can be read off the text,
and so can the names that each of them declares up to that place. Nothing here follows a resolver
on its way through a program, or says what it keeps in mind there.
-/

namespace ScopedScript

/-- The names that a statement declares in the scope it stands in. The branches of an `if` and the
body of a loop stand in the scope of the whole. -/
def Stmt.declaredNames : Stmt → List String
  | .expression _ | .print _ | .block _ | .giveBack _ _ => []
  | .var name _ => [name.text]
  | .ifThen _ thenBranch => thenBranch.declaredNames
  | .ifElse _ thenBranch elseBranch => thenBranch.declaredNames ++ elseBranch.declaredNames
  | .loop _ body => body.declaredNames
  | .function d => [d.name.text]
  | .classDef name _ _ => [name.text]

/-- The names that a function declares in its own scope: its parameters, and what the top level of
its body declares. -/
def FunctionDecl.declaredNames (d : FunctionDecl) : List String :=
  d.parameters.map Name.text ++ d.body.flatMap Stmt.declaredNames

/-- The references of a statement that stand in no statement it contains. -/
def Stmt.ownOccurrences : Stmt → List Occurrence
  | .expression e | .print e => e.occurrences
  | .var _ initial => Expr.occurrencesOption initial
  | .block _ | .function _ => []
  | .ifThen condition _ | .ifElse condition _ _ | .loop condition _ => condition.occurrences
  | .giveBack _ value => Expr.occurrencesOption value
  | .classDef _ superclass _ => superclass.toList.map (·.occurrence .read)

/-- The word that is looked up at a place. -/
def Occurrence.word (o : Occurrence) : String :=
  if o.role = .inherited then superclassWord else o.name.text

/-- A scope around a place. Of the statements in it there are those that have begun before the
place: the last one is the one the place is in. -/
inductive Enclosure where
  | block (begun : List Stmt)
  | function (declaration : FunctionDecl) (begun : List Stmt)
  | method (declaration : FunctionDecl) (begun : List Stmt)
  /-- The scope of `this` around the methods of a class. -/
  | receiver (superclass : Option Reference)
  /-- The scope of `super` around that of `this`. -/
  | superclass

namespace Enclosure

/-- The names whose declarations in a scope have begun before the place it encloses. -/
def declared : Enclosure → List String
  | block begun => begun.flatMap Stmt.declaredNames
  | function d begun | method d begun =>
    d.parameters.map Name.text ++ begun.flatMap Stmt.declaredNames
  | receiver _ => [receiverWord]
  | superclass => [superclassWord]

/-- Whether a scope is that of a function or a method. -/
def isBody : Enclosure → Bool
  | function _ _ | method _ _ => true
  | _ => false

/-- Whether a scope is that of `this`, which every class has. -/
def isClass : Enclosure → Bool
  | receiver _ => true
  | _ => false

/-- The scopes around the methods of a class. -/
def ofClass : Option Reference → List Enclosure
  | none => [receiver none]
  | some ref => [receiver (some ref), superclass]

end Enclosure

/-- A statement of a program stands in scopes, listed from the innermost one out. -/
inductive Enclosed (program : List Stmt) : List Enclosure → Stmt → Prop where
  | topLevel {s : Stmt} : s ∈ program → Enclosed program [] s
  | block {path : List Enclosure} {body before : List Stmt} {s : Stmt} :
      Enclosed program path (.block body) → before ++ [s] <+: body →
      Enclosed program (.block (before ++ [s]) :: path) s
  | ifThen {path : List Enclosure} {condition : Expr} {s : Stmt} :
      Enclosed program path (.ifThen condition s) → Enclosed program path s
  | ifTrue {path : List Enclosure} {condition : Expr} {s elseBranch : Stmt} :
      Enclosed program path (.ifElse condition s elseBranch) → Enclosed program path s
  | ifFalse {path : List Enclosure} {condition : Expr} {thenBranch s : Stmt} :
      Enclosed program path (.ifElse condition thenBranch s) → Enclosed program path s
  | loop {path : List Enclosure} {condition : Expr} {s : Stmt} :
      Enclosed program path (.loop condition s) → Enclosed program path s
  | function {path : List Enclosure} {d : FunctionDecl} {before : List Stmt} {s : Stmt} :
      Enclosed program path (.function d) → before ++ [s] <+: d.body →
      Enclosed program (.function d (before ++ [s]) :: path) s
  | method {path : List Enclosure} {name : Name} {superclass : Option Reference}
      {methods : List FunctionDecl} {d : FunctionDecl} {before : List Stmt} {s : Stmt} :
      Enclosed program path (.classDef name superclass methods) → d ∈ methods →
      before ++ [s] <+: d.body →
      Enclosed program (.method d (before ++ [s]) :: (Enclosure.ofClass superclass ++ path)) s

namespace Scopes

variable {Γ : Scopes} {scope : Scope} {x : String} {xs ys : List String}

/-- The scopes after the declarations of names one after the other. -/
def introducingNames (Γ : Scopes) (xs : List String) : Scopes := xs.foldl introducing Γ

theorem introducingNames_append :
    Γ.introducingNames (xs ++ ys) = (Γ.introducingNames xs).introducingNames ys :=
  List.foldl_append

theorem introducingAll_eq (Γ : Scopes) (names : List Name) :
    Γ.introducingAll names = Γ.introducingNames (names.map Name.text) := by
  induction names generalizing Γ with
  | nil => rfl
  | cons name names ih => exact ih _

theorem introducing_eq_nil : Γ.introducing x = [] ↔ Γ = [] := by
  cases Γ <;> simp [introducing, declaring, defining, onInnermost]

theorem introducingNames_eq_nil : Γ.introducingNames xs = [] ↔ Γ = [] := by
  induction xs generalizing Γ with
  | nil => rfl
  | cons x xs ih => exact ih.trans introducing_eq_nil

/-- Declarations add to the innermost scope the names that are declared, and no others. -/
theorem exists_introducingNames_eq (scope : Scope) (Γ : Scopes) (xs : List String) :
    ∃ scope', Scopes.introducingNames (scope :: Γ) xs = scope' :: Γ ∧
      ∀ y, scope'.declares y = true ↔ scope.declares y = true ∨ y ∈ xs := by
  induction xs generalizing scope with
  | nil => exact ⟨scope, rfl, fun y => by simp⟩
  | cons x xs ih =>
      obtain ⟨scope', heq, hdeclares⟩ := ih ((x, true) :: (x, false) :: scope)
      refine ⟨scope', heq, fun y => ?_⟩
      rw [hdeclares, Scope.declares_cons, Scope.declares_cons, List.mem_cons]
      simp only [Bool.or_eq_true, decide_eq_true_eq, or_self_left, or_assoc, or_left_comm]

end Scopes

/-- The scopes after a statement are those before it with the names that it declares. -/
theorem Stmt.after_eq (s : Stmt) (Γ : Scopes) : s.after Γ = Γ.introducingNames s.declaredNames := by
  cases s with
  | expression _ | print _ | block _ | giveBack _ _ => rfl
  | var _ _ | function _ | classDef _ _ _ => rfl
  | ifThen _ thenBranch => exact thenBranch.after_eq Γ
  | ifElse _ thenBranch elseBranch =>
      rw [Stmt.after, Stmt.declaredNames, Scopes.introducingNames_append, thenBranch.after_eq,
        elseBranch.after_eq]
  | loop _ body => exact body.after_eq Γ

theorem Stmt.afterAll_eq (Γ : Scopes) (ss : List Stmt) :
    Stmt.afterAll Γ ss = Γ.introducingNames (ss.flatMap Stmt.declaredNames) := by
  induction ss generalizing Γ with
  | nil => rfl
  | cons s ss ih =>
      rw [Stmt.afterAll, ih, List.flatMap_cons, Scopes.introducingNames_append, s.after_eq]

namespace Enclosed

variable {program body methodBody : List Stmt} {path : List Enclosure} {s : Stmt}
  {o : Occurrence}

/-- Up to each of some statements, some of them have begun. -/
theorem exists_begun {ss : List Stmt} (hs : s ∈ ss) : ∃ before, before ++ [s] <+: ss := by
  obtain ⟨before, rest, rfl⟩ := List.append_of_mem hs
  exact ⟨before, rest, by rw [List.append_assoc]; rfl⟩

/-- A statement that has begun among some statements is one of them. -/
theorem mem_of_begun {ss before : List Stmt} (h : before ++ [s] <+: ss) : s ∈ ss :=
  h.subset (List.mem_append_right before List.mem_cons_self)

theorem of_mem_block (h : Enclosed program path (.block body)) (hs : s ∈ body) :
    ∃ begun, Enclosed program (.block begun :: path) s := by
  obtain ⟨before, hbefore⟩ := exists_begun hs
  exact ⟨_, h.block hbefore⟩

theorem of_mem_function {d : FunctionDecl} (h : Enclosed program path (.function d))
    (hs : s ∈ d.body) : ∃ begun, Enclosed program (.function d begun :: path) s := by
  obtain ⟨before, hbefore⟩ := exists_begun hs
  exact ⟨_, h.function hbefore⟩

theorem of_mem_method {name : Name} {superclass : Option Reference} {methods : List FunctionDecl}
    {d : FunctionDecl} (h : Enclosed program path (.classDef name superclass methods))
    (hd : d ∈ methods) (hs : s ∈ d.body) :
    ∃ begun, Enclosed program (.method d begun :: (Enclosure.ofClass superclass ++ path)) s := by
  obtain ⟨before, hbefore⟩ := exists_begun hs
  exact ⟨_, h.method hd hbefore⟩

/-- A reference is one that a statement of a program has of its own. -/
def Has (program : List Stmt) (o : Occurrence) : Prop :=
  ∃ path s, Enclosed program path s ∧ o ∈ s.ownOccurrences

mutual

/-- The references of a statement of a program are each one that some statement has of its own. -/
theorem has (s : Stmt) {path : List Enclosure} (h : Enclosed program path s)
    (ho : o ∈ s.occurrences) : Has program o := by
  cases s with
  | expression _ | print _ | var _ _ | giveBack _ _ => exact ⟨path, _, h, ho⟩
  | block body =>
      refine hasAll body (fun s hs => ?_) ho
      obtain ⟨begun, hbegun⟩ := h.of_mem_block hs
      exact ⟨_, hbegun⟩
  | ifThen condition thenBranch =>
      rcases List.mem_append.mp ho with hcondition | hthen
      · exact ⟨path, _, h, hcondition⟩
      · exact has thenBranch h.ifThen hthen
  | ifElse condition thenBranch elseBranch =>
      rw [Stmt.occurrences, List.mem_append, List.mem_append] at ho
      obtain (hcondition | hthen) | helse := ho
      · exact ⟨path, _, h, hcondition⟩
      · exact has thenBranch h.ifTrue hthen
      · exact has elseBranch h.ifFalse helse
  | loop condition body =>
      rcases List.mem_append.mp ho with hcondition | hbody
      · exact ⟨path, _, h, hcondition⟩
      · exact has body h.loop hbody
  | function d =>
      refine hasFunction d (fun s hs => ?_) ho
      obtain ⟨begun, hbegun⟩ := h.of_mem_function hs
      exact ⟨_, hbegun⟩
  | classDef name superclass methods =>
      rcases List.mem_append.mp ho with hsuperclass | hmethods
      · exact ⟨path, _, h, hsuperclass⟩
      · refine hasMethods methods (fun d hd s hs => ?_) hmethods
        obtain ⟨begun, hbegun⟩ := h.of_mem_method hd hs
        exact ⟨_, hbegun⟩

theorem hasAll (ss : List Stmt) (h : ∀ s ∈ ss, ∃ path, Enclosed program path s)
    (ho : o ∈ Stmt.occurrencesAll ss) : Has program o := by
  cases ss with
  | nil => cases ho
  | cons s ss =>
      obtain ⟨⟨path, hpath⟩, hrest⟩ := List.forall_mem_cons.mp h
      rcases List.mem_append.mp ho with hfirst | hlater
      · exact has s hpath hfirst
      · exact hasAll ss hrest hlater

theorem hasFunction (d : FunctionDecl) (h : ∀ s ∈ d.body, ∃ path, Enclosed program path s)
    (ho : o ∈ d.occurrences) : Has program o := by
  cases d with
  | mk name parameters body => exact hasAll body h ho

theorem hasMethods (ds : List FunctionDecl)
    (h : ∀ d ∈ ds, ∀ s ∈ d.body, ∃ path, Enclosed program path s)
    (ho : o ∈ FunctionDecl.occurrencesAll ds) : Has program o := by
  cases ds with
  | nil => cases ho
  | cons d ds =>
      obtain ⟨hd, hrest⟩ := List.forall_mem_cons.mp h
      rcases List.mem_append.mp ho with hfirst | hlater
      · exact hasFunction d hd hfirst
      · exact hasMethods ds hrest hlater

end

/-- Every reference of a program is one that some statement has of its own. -/
theorem has_of_mem_occurrences (ho : o ∈ Stmt.occurrencesAll program) :
    ∃ path s, Enclosed program path s ∧ o ∈ s.ownOccurrences :=
  hasAll program (fun _ hs => ⟨[], .topLevel hs⟩) ho

end Enclosed

end ScopedScript
