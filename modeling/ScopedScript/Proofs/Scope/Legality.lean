import ScopedScript.Proofs.Scope.Enclosure
import ScopedScript.Proofs.Scope.Resolution

/-!
# Which programs are accepted

The rules of scoping say what may stand where, by the functions, classes and scopes around a place.
The resolver accepts the programs that break none of them, and no others.
-/

namespace ScopedScript

/-- A program breaks no rule of scoping. -/
structure Legal (program : List Stmt) : Prop where
  /-- A `return` stands in a function or a method. -/
  returns {path : List Enclosure} {line : Nat} {value : Option Expr} :
    Enclosed program path (.giveBack line value) → ∃ scope ∈ path, scope.isBody = true
  /-- No value is returned where the innermost body is that of an initializer. -/
  returnsNoValue {path : List Enclosure} {line : Nat} {value : Expr} {d : FunctionDecl}
    {begun : List Stmt} : Enclosed program path (.giveBack line (some value)) →
    path.find? Enclosure.isBody = some (.method d begun) → d.name.text ≠ initializerName
  /-- A `this` stands in a class. -/
  receivers {path : List Enclosure} {s : Stmt} {o : Occurrence} : Enclosed program path s →
    o ∈ s.ownOccurrences → o.role = .receiver → ∃ scope ∈ path, scope.isClass = true
  /-- The innermost class around a `super` has a superclass. -/
  inherits {path : List Enclosure} {s : Stmt} {o : Occurrence} : Enclosed program path s →
    o ∈ s.ownOccurrences → o.role = .inherited →
    ∃ ref, path.find? Enclosure.isClass = some (.receiver (some ref))
  /-- No class is to be its own superclass. -/
  superclasses {path : List Enclosure} {name : Name} {ref : Reference}
    {methods : List FunctionDecl} : Enclosed program path (.classDef name (some ref) methods) →
    ref.name.text ≠ name.text
  /-- No block declares a name twice. -/
  blocks {path : List Enclosure} {body : List Stmt} : Enclosed program path (.block body) →
    (body.flatMap Stmt.declaredNames).Nodup
  /-- No function declares a name twice, be it as a parameter or in its body. -/
  functions {path : List Enclosure} {d : FunctionDecl} : Enclosed program path (.function d) →
    d.declaredNames.Nodup
  /-- No method declares a name twice, be it as a parameter or in its body. -/
  methods {path : List Enclosure} {name : Name} {superclass : Option Reference}
    {methods : List FunctionDecl} {d : FunctionDecl} :
    Enclosed program path (.classDef name superclass methods) → d ∈ methods →
    d.declaredNames.Nodup
  /-- No local variable is read in its own initializer. -/
  initializers {path : List Enclosure} {name : Name} {initial : Expr} {o : Occurrence} :
    Enclosed program path (.var name (some initial)) → path ≠ [] → o ∈ initial.occurrences →
    o.role = .read → o.name.text ≠ name.text

namespace Enclosure

variable {path : List Enclosure}

/-- The sort of the innermost body among scopes. -/
def bodyKind (path : List Enclosure) : BodyKind :=
  match path.find? isBody with
  | some (.method d _) => Resolve.methodKind d.name
  | some _ => .function
  | none => .topLevel

/-- The sort of the innermost class among scopes. -/
def classKind (path : List Enclosure) : ClassKind :=
  match path.find? isClass with
  | some (.receiver (some _)) => .subclass
  | some _ => .plain
  | none => .outside

/-- What scopes mean for `return`, `this` and `super`. -/
def setting (path : List Enclosure) : Setting := ⟨bodyKind path, classKind path⟩

theorem bodyKind_ne_topLevel : bodyKind path ≠ .topLevel ↔ ∃ scope ∈ path, scope.isBody = true := by
  rw [← List.find?_isSome]
  unfold bodyKind
  cases hfind : path.find? isBody with
  | none => simp
  | some scope =>
      cases scope with
      | method d begun =>
          simp only [Resolve.methodKind]
          split <;> simp
      | _ => simp

theorem bodyKind_eq_initializer : bodyKind path = .initializer ↔
    ∃ d begun, path.find? isBody = some (.method d begun) ∧ d.name.text = initializerName := by
  unfold bodyKind
  cases hfind : path.find? isBody with
  | none => simp
  | some scope =>
      cases scope with
      | method d begun =>
          simp only [Resolve.methodKind]
          split <;> simp_all
      | _ => simp

theorem classKind_ne_outside :
    classKind path ≠ .outside ↔ ∃ scope ∈ path, scope.isClass = true := by
  rw [← List.find?_isSome]
  unfold classKind
  cases path.find? isClass with
  | none => simp
  | some scope => rcases scope with _ | _ | _ | (_ | _) | _ <;> simp

theorem classKind_eq_subclass : classKind path = .subclass ↔
    ∃ ref, path.find? isClass = some (.receiver (some ref)) := by
  unfold classKind
  cases path.find? isClass with
  | none => simp
  | some scope => rcases scope with _ | _ | _ | (_ | _) | _ <;> simp

end Enclosure

namespace Scopes

variable {Γ : Scopes} {x y : String} {xs ys : List String}

/-- Names differ from one another and are not declared in the innermost scope, if there is one. -/
def Unused : Scopes → List String → Prop
  | [], _ => True
  | scope :: _, xs => xs.Nodup ∧ ∀ x ∈ xs, scope.declares x = false

/-- No name is in the course of being declared in the innermost scope. -/
def AllReadable (Γ : Scopes) : Prop := ∀ x, Γ.Readable x

@[simp] theorem unused_nil : Γ.Unused [] := by
  cases Γ <;> simp [Unused]

theorem unused_cons : Γ.Unused (x :: xs) ↔ Γ.Fresh x ∧ (Γ.introducing x).Unused xs := by
  cases Γ with
  | nil => simp [Unused, Fresh, introducing, declaring, defining, onInnermost]
  | cons scope outer =>
      change (x :: xs).Nodup ∧ (∀ y ∈ x :: xs, scope.declares y = false) ↔
        scope.declares x = false ∧ xs.Nodup ∧
          ∀ y ∈ xs, Scope.declares ((x, true) :: (x, false) :: scope) y = false
      simp only [List.nodup_cons, List.forall_mem_cons, Scope.declares_cons, Bool.or_eq_false_iff,
        decide_eq_false_iff_not]
      constructor
      · rintro ⟨⟨hx, hnodup⟩, hfresh, hrest⟩
        refine ⟨hfresh, hnodup, fun y hy => ?_⟩
        have hne : y ≠ x := fun heq => hx (heq ▸ hy)
        exact ⟨hne, hne, hrest y hy⟩
      · rintro ⟨hfresh, hnodup, hrest⟩
        exact ⟨⟨fun hx => (hrest x hx).1 rfl, hnodup⟩, hfresh, fun y hy => (hrest y hy).2.2⟩

theorem unused_append :
    Γ.Unused (xs ++ ys) ↔ Γ.Unused xs ∧ (Γ.introducingNames xs).Unused ys := by
  induction xs generalizing Γ with
  | nil => simp [introducingNames]
  | cons x xs ih =>
      rw [List.cons_append, unused_cons, unused_cons, ih, and_assoc]
      rfl

theorem unused_singleton : Γ.Unused [x] ↔ Γ.Fresh x := by
  rw [unused_cons]
  simp

theorem freshAll_iff {names : List Name} : Γ.FreshAll names ↔ Γ.Unused (names.map Name.text) := by
  induction names generalizing Γ with
  | nil => simp [FreshAll]
  | cons name names ih => rw [FreshAll, List.map_cons, unused_cons, ih]

/-- In a new scope, names are unused if they differ from one another. -/
theorem unused_inner : Scopes.Unused ([] :: Γ) xs ↔ xs.Nodup :=
  and_iff_left fun _ _ => rfl

theorem AllReadable.introducing (h : Γ.AllReadable) : (Γ.introducing x).AllReadable := by
  cases Γ with
  | nil => exact h
  | cons scope outer => exact Scope.Settled.define h

theorem AllReadable.introducingNames (h : Γ.AllReadable) : (Γ.introducingNames xs).AllReadable := by
  induction xs generalizing Γ with
  | nil => exact h
  | cons x xs ih => exact ih h.introducing

theorem allReadable_inner : Scopes.AllReadable ([] :: Γ) := Scope.Settled.nil

/-- In the course of declaring a name in a scope, the others can be read. -/
theorem AllReadable.declaring (h : Γ.AllReadable) :
    (Γ.declaring x).Readable y ↔ (Γ ≠ [] → y ≠ x) := by
  cases Γ with
  | nil => simp [Scopes.declaring, onInnermost, Readable]
  | cons scope outer =>
      change List.lookup y ((x, false) :: scope) ≠ some false ↔ _
      rw [Scope.lookup_cons]
      by_cases heq : y = x
      · simp [heq]
      · rw [if_neg heq]
        exact iff_of_true (h y) fun _ => heq

end Scopes

open Enclosure

/-- A reference may stand in a setting and in scopes. -/
def Occurrence.Allowed (setting : Setting) (Γ : Scopes) (o : Occurrence) : Prop :=
  match o.role with
  | .read => Γ.Readable o.name.text
  | .assign => True
  | .receiver => setting.classKind ≠ .outside
  | .inherited => setting.classKind = .subclass

section Expressions

variable {setting : Setting} {Γ : Scopes}

mutual

/-- An expression obeys the rules if its references do. -/
theorem Expr.obeys_iff (e : Expr) :
    e.Obeys setting Γ ↔ ∀ o ∈ e.occurrences, o.Allowed setting Γ := by
  cases e with
  | literal value => simp [Expr.Obeys, Expr.occurrences]
  | unary op line operand => exact operand.obeys_iff
  | binary op line left right | logical op line left right =>
      rw [Expr.Obeys, Expr.occurrences, List.forall_mem_append, left.obeys_iff, right.obeys_iff]
  | grouping inner => exact inner.obeys_iff
  | name ref => simp [Expr.Obeys, Expr.occurrences, Reference.occurrence, Occurrence.Allowed]
  | assign ref value =>
      rw [Expr.Obeys, Expr.occurrences, List.forall_mem_cons, value.obeys_iff]
      exact (and_iff_right trivial).symm
  | call callee line arguments =>
      rw [Expr.Obeys, Expr.occurrences, List.forall_mem_append, callee.obeys_iff,
        Expr.obeysAll_iff arguments]
  | get object property => exact object.obeys_iff
  | set object property value =>
      rw [Expr.Obeys, Expr.occurrences, List.forall_mem_append, value.obeys_iff,
        object.obeys_iff, and_comm]
  | receiver id line => simp [Expr.Obeys, Expr.occurrences, Occurrence.Allowed]
  | inherited id line method => simp [Expr.Obeys, Expr.occurrences, Occurrence.Allowed]

theorem Expr.obeysAll_iff (es : List Expr) :
    Expr.ObeysAll setting Γ es ↔ ∀ o ∈ Expr.occurrencesAll es, o.Allowed setting Γ := by
  cases es with
  | nil => simp [Expr.ObeysAll, Expr.occurrencesAll]
  | cons e es =>
      rw [Expr.ObeysAll, Expr.occurrencesAll, List.forall_mem_append, e.obeys_iff,
        Expr.obeysAll_iff es]

end

theorem Expr.obeysOption_iff (e : Option Expr) : Expr.ObeysOption setting Γ e ↔
    ∀ o ∈ Expr.occurrencesOption e, o.Allowed setting Γ := by
  cases e with
  | none => simp [Expr.ObeysOption, Expr.occurrencesOption]
  | some e => simpa [Expr.ObeysOption, Expr.occurrencesOption] using e.obeys_iff

end Expressions

/-! ### What obeys the rules breaks none -/

section Obeying

variable {setting : Setting} {Γ : Scopes}

/-- A statement that obeys the rules declares names that are unused. -/
theorem Stmt.unused_of_obeys (s : Stmt) {Γ : Scopes} (h : s.Obeys setting Γ) :
    Γ.Unused s.declaredNames := by
  cases s with
  | expression _ | print _ | block _ | giveBack _ _ => exact Scopes.unused_nil
  | var _ _ | function _ => exact Scopes.unused_singleton.mpr h.1
  | classDef _ superclass _ => cases superclass <;> exact Scopes.unused_singleton.mpr h.1
  | ifThen _ thenBranch => exact thenBranch.unused_of_obeys h.2
  | ifElse _ thenBranch elseBranch =>
      refine Scopes.unused_append.mpr ⟨thenBranch.unused_of_obeys h.2.1, ?_⟩
      rw [← thenBranch.after_eq]
      exact elseBranch.unused_of_obeys h.2.2
  | loop _ body => exact body.unused_of_obeys h.2

theorem Stmt.ObeysAll.unused {ss : List Stmt} (h : Stmt.ObeysAll setting Γ ss) :
    Γ.Unused (ss.flatMap Stmt.declaredNames) := by
  induction ss generalizing Γ with
  | nil => exact Scopes.unused_nil
  | cons s ss ih =>
      rw [List.flatMap_cons, Scopes.unused_append, ← s.after_eq]
      exact ⟨s.unused_of_obeys h.1, ih h.2⟩

theorem FunctionDecl.Obeys.nodup {d : FunctionDecl} (h : d.Obeys setting Γ) :
    d.declaredNames.Nodup := by
  cases d with
  | mk name parameters body =>
      apply Scopes.unused_inner.mp
      rw [FunctionDecl.declaredNames, Scopes.unused_append, ← Scopes.introducingAll_eq]
      exact ⟨Scopes.freshAll_iff.mp h.1, h.2.unused⟩

/-- Each of some statements that obey the rules does so in the scopes that it stands in. -/
theorem Stmt.ObeysAll.of_mem {ss : List Stmt} {s : Stmt} (h : Stmt.ObeysAll setting Γ ss)
    (hs : s ∈ ss) : ∃ Γ', s.Obeys setting Γ' ∧ (Γ' = [] ↔ Γ = []) := by
  induction ss generalizing Γ with
  | nil => cases hs
  | cons t ss ih =>
      rcases List.mem_cons.mp hs with rfl | hlater
      · exact ⟨Γ, h.1, Iff.rfl⟩
      · obtain ⟨Γ', hs', hnil⟩ := ih h.2 hlater
        rw [t.after_eq, Scopes.introducingNames_eq_nil] at hnil
        exact ⟨Γ', hs', hnil⟩

theorem FunctionDecl.Obeys.of_mem {d : FunctionDecl} {s : Stmt} (h : d.Obeys setting Γ)
    (hs : s ∈ d.body) : ∃ Γ', s.Obeys setting Γ' ∧ Γ' ≠ [] := by
  cases d with
  | mk name parameters body =>
      obtain ⟨Γ', hs', hnil⟩ := Stmt.ObeysAll.of_mem h.2 hs
      rw [Scopes.introducingAll_eq, Scopes.introducingNames_eq_nil] at hnil
      exact ⟨Γ', hs', fun heq => List.cons_ne_nil _ _ (hnil.mp heq)⟩

theorem FunctionDecl.ObeysAll.of_mem {ds : List FunctionDecl} {d : FunctionDecl}
    (h : FunctionDecl.ObeysAll setting Γ ds) (hd : d ∈ ds) :
    d.Obeys { setting with body := Resolve.methodKind d.name } Γ := by
  induction ds with
  | nil => cases hd
  | cons d' ds ih =>
      rcases List.mem_cons.mp hd with rfl | hlater
      · exact h.1
      · exact ih h.2 hlater

/-- The methods of a class that obeys the rules do so in the scopes of the class. -/
theorem Stmt.Obeys.of_mem_methods {path : List Enclosure} {name : Name}
    {superclass : Option Reference} {methods : List FunctionDecl} {d : FunctionDecl}
    (h : (Stmt.classDef name superclass methods).Obeys (Enclosure.setting path) Γ)
    (hd : d ∈ methods) (begun : List Stmt) : ∃ Γ', d.Obeys
      (Enclosure.setting (.method d begun :: (Enclosure.ofClass superclass ++ path))) Γ' := by
  cases superclass with
  | none => exact ⟨_, FunctionDecl.ObeysAll.of_mem h.2 hd⟩
  | some ref => exact ⟨_, FunctionDecl.ObeysAll.of_mem h.2.2.2 hd⟩

end Obeying

section Program

variable {program : List Stmt} {path : List Enclosure} {s : Stmt}

/-- In a program that obeys the rules, each statement does, in the setting of its own place. -/
theorem Enclosed.obeys (hprogram : Stmt.ObeysAll ⟨.topLevel, .outside⟩ [] program)
    (h : Enclosed program path s) : ∃ Γ, s.Obeys (setting path) Γ ∧ (Γ = [] ↔ path = []) := by
  induction h with
  | topLevel hs =>
      obtain ⟨Γ, hobeys, hnil⟩ := hprogram.of_mem hs
      exact ⟨Γ, hobeys, hnil.trans (iff_of_true rfl rfl)⟩
  | @block path body before s _ hbefore ih =>
      obtain ⟨Γ, hobeys, _⟩ := ih
      obtain ⟨Γ', hs, hnil⟩ := Stmt.ObeysAll.of_mem hobeys (Enclosed.mem_of_begun hbefore)
      exact ⟨Γ', hs, hnil.trans (iff_of_false (List.cons_ne_nil _ _) (List.cons_ne_nil _ _))⟩
  | ifThen _ ih | loop _ ih =>
      obtain ⟨Γ, hobeys, hnil⟩ := ih
      exact ⟨Γ, hobeys.2, hnil⟩
  | ifTrue _ ih =>
      obtain ⟨Γ, hobeys, hnil⟩ := ih
      exact ⟨Γ, hobeys.2.1, hnil⟩
  | @ifFalse _ _ thenBranch _ _ ih =>
      obtain ⟨Γ, hobeys, hnil⟩ := ih
      refine ⟨_, hobeys.2.2, Iff.trans ?_ hnil⟩
      rw [thenBranch.after_eq, Scopes.introducingNames_eq_nil]
  | @function path d before s _ hbefore ih =>
      obtain ⟨Γ, hobeys, _⟩ := ih
      obtain ⟨Γ', hs, hnil⟩ := FunctionDecl.Obeys.of_mem hobeys.2 (Enclosed.mem_of_begun hbefore)
      exact ⟨Γ', hs, iff_of_false hnil (List.cons_ne_nil _ _)⟩
  | @method path name superclass methods d before s _ hd hbefore ih =>
      obtain ⟨Γ, hobeys, _⟩ := ih
      obtain ⟨Γ', hmethod⟩ := hobeys.of_mem_methods hd (before ++ [s])
      obtain ⟨Γ'', hs, hnil⟩ := hmethod.of_mem (Enclosed.mem_of_begun hbefore)
      exact ⟨Γ'', hs, iff_of_false hnil (List.cons_ne_nil _ _)⟩

/-- The references that a statement that obeys the rules has of its own may stand where they do. -/
theorem Stmt.Obeys.allowed {setting : Setting} {Γ : Scopes} {o : Occurrence}
    (h : s.Obeys setting Γ) (ho : o ∈ s.ownOccurrences) : ∃ Γ', o.Allowed setting Γ' := by
  cases s with
  | expression e | print e => exact ⟨Γ, e.obeys_iff.mp h o ho⟩
  | var name initial => exact ⟨_, (Expr.obeysOption_iff initial).mp h.2 o ho⟩
  | block _ | function _ => cases ho
  | ifThen condition _ | ifElse condition _ _ | loop condition _ =>
      exact ⟨Γ, condition.obeys_iff.mp h.1 o ho⟩
  | giveBack _ value => exact ⟨Γ, (Expr.obeysOption_iff value).mp h.2.2 o ho⟩
  | classDef name superclass _ =>
      cases superclass with
      | none => cases ho
      | some ref =>
          cases List.mem_singleton.mp ho
          exact ⟨_, h.2.2.1⟩

/-- A program that obeys the rules breaks none. -/
theorem legal_of_obeys (hprogram : Stmt.ObeysAll ⟨.topLevel, .outside⟩ [] program) :
    Legal program where
  returns h := by
    obtain ⟨Γ, hobeys, _⟩ := h.obeys hprogram
    exact bodyKind_ne_topLevel.mp hobeys.1
  returnsNoValue h hfind hname := by
    obtain ⟨Γ, hobeys, _⟩ := h.obeys hprogram
    cases hobeys.2.1 (bodyKind_eq_initializer.mpr ⟨_, _, hfind, hname⟩)
  receivers h ho hrole := by
    obtain ⟨Γ, hobeys, _⟩ := h.obeys hprogram
    obtain ⟨Γ', hallowed⟩ := hobeys.allowed ho
    rw [Occurrence.Allowed, hrole] at hallowed
    exact classKind_ne_outside.mp hallowed
  inherits h ho hrole := by
    obtain ⟨Γ, hobeys, _⟩ := h.obeys hprogram
    obtain ⟨Γ', hallowed⟩ := hobeys.allowed ho
    rw [Occurrence.Allowed, hrole] at hallowed
    exact classKind_eq_subclass.mp hallowed
  superclasses h := by
    obtain ⟨Γ, hobeys, _⟩ := h.obeys hprogram
    exact hobeys.2.1
  blocks h := by
    obtain ⟨Γ, hobeys, _⟩ := h.obeys hprogram
    exact Scopes.unused_inner.mp (Stmt.ObeysAll.unused hobeys)
  functions h := by
    obtain ⟨Γ, hobeys, _⟩ := h.obeys hprogram
    exact FunctionDecl.Obeys.nodup hobeys.2
  methods h hd := by
    obtain ⟨Γ, hobeys, _⟩ := h.obeys hprogram
    obtain ⟨Γ', hmethod⟩ := hobeys.of_mem_methods hd []
    exact hmethod.nodup
  initializers h hlocal ho hrole hname := by
    obtain ⟨Γ, hobeys, hnil⟩ := h.obeys hprogram
    have hallowed := Expr.obeys_iff _ |>.mp hobeys.2 _ ho
    rw [Occurrence.Allowed, hrole, hname] at hallowed
    cases Γ with
    | nil => exact hlocal (hnil.mp rfl)
    | cons scope outer => exact hallowed (by simp)

/-! ### What breaks none obeys the rules -/

/-- In a program that breaks no rule, a reference that a statement has of its own may stand where it
does, unless it is read in the course of a declaration. -/
theorem Legal.allowed (h : Legal program) (hs : Enclosed program path s) {o : Occurrence}
    (ho : o ∈ s.ownOccurrences) {Γ : Scopes} (hread : o.role = .read → Γ.Readable o.name.text) :
    o.Allowed (setting path) Γ := by
  unfold Occurrence.Allowed
  cases hrole : o.role with
  | read => exact hread hrole
  | assign => trivial
  | receiver => exact classKind_ne_outside.mpr (h.receivers hs ho hrole)
  | inherited => exact classKind_eq_subclass.mpr (h.inherits hs ho hrole)

/-- Statements of a program stand in the same setting, and in no scope just if none is given. -/
def StandsAll (program : List Stmt) (setting : Setting) (Γ : Scopes) (ss : List Stmt) : Prop :=
  ∀ s ∈ ss, ∃ path, Enclosed program path s ∧ Enclosure.setting path = setting ∧
    (Γ = [] ↔ path = [])

theorem StandsAll.introducingNames {setting : Setting} {Γ : Scopes} {ss : List Stmt}
    (h : StandsAll program setting Γ ss) (xs : List String) :
    StandsAll program setting (Γ.introducingNames xs) ss := by
  intro s hs
  obtain ⟨path, henclosed, hsetting, hnil⟩ := h s hs
  exact ⟨path, henclosed, hsetting, Scopes.introducingNames_eq_nil.trans hnil⟩

/-- The statements of a scope stand in the setting that it makes. -/
theorem standsAll_inner {setting : Setting} {Γ : Scopes} {ss : List Stmt}
    {scope : List Stmt → Enclosure}
    (hss : ∀ s ∈ ss, ∃ begun, Enclosed program (scope begun :: path) s)
    (hsetting : ∀ begun, Enclosure.setting (scope begun :: path) = setting) :
    StandsAll program setting ([] :: Γ) ss := by
  intro s hs
  obtain ⟨begun, hbegun⟩ := hss s hs
  exact ⟨_, hbegun, hsetting begun, iff_of_false (List.cons_ne_nil _ _) (List.cons_ne_nil _ _)⟩

theorem Enclosed.standsAll_methods {name : Name} {superclass : Option Reference}
    {methods : List FunctionDecl} (h : Enclosed program path (.classDef name superclass methods))
    {Γ : Scopes} {d : FunctionDecl} (hd : d ∈ methods) : StandsAll program
      ⟨Resolve.methodKind d.name, if superclass.isSome then .subclass else .plain⟩ ([] :: Γ)
      d.body := by
  refine standsAll_inner (fun s hs => h.of_mem_method hd hs) fun begun => ?_
  cases superclass <;> rfl

mutual

/-- In a program that breaks no rule, a statement obeys the rules in scopes that declare none of its
names and no name by halves. -/
theorem Legal.obeys (h : Legal program) (s : Stmt) {path : List Enclosure}
    (hs : Enclosed program path s) {Γ : Scopes} (hnil : Γ = [] ↔ path = [])
    (hreadable : Γ.AllReadable) (hunused : Γ.Unused s.declaredNames) :
    s.Obeys (setting path) Γ := by
  have hcondition {e : Expr} (hown : e.occurrences ⊆ s.ownOccurrences) :
      e.Obeys (setting path) Γ :=
    e.obeys_iff.mpr fun o ho => h.allowed hs (hown ho) fun _ => hreadable _
  cases s with
  | expression e | print e => exact hcondition fun _ ho => ho
  | var name initial =>
      refine ⟨Scopes.unused_singleton.mp hunused, (Expr.obeysOption_iff initial).mpr ?_⟩
      intro o ho
      refine h.allowed hs ho fun hread => hreadable.declaring.mpr fun hlocal => ?_
      cases initial with
      | none => cases ho
      | some e =>
          have ho' : o ∈ e.occurrences := by simpa [Expr.occurrencesOption] using ho
          exact h.initializers hs (hlocal ∘ hnil.mpr) ho' hread
  | block body =>
      exact h.obeysAll body (standsAll_inner (fun _ => hs.of_mem_block) fun _ => rfl)
        Scopes.allReadable_inner (Scopes.unused_inner.mpr (h.blocks hs))
  | ifThen condition thenBranch =>
      exact ⟨hcondition fun _ ho => ho, h.obeys thenBranch hs.ifThen hnil hreadable hunused⟩
  | ifElse condition thenBranch elseBranch =>
      obtain ⟨hthen, helse⟩ := Scopes.unused_append.mp hunused
      refine ⟨hcondition fun _ ho => ho, h.obeys thenBranch hs.ifTrue hnil hreadable hthen, ?_⟩
      rw [thenBranch.after_eq]
      exact h.obeys elseBranch hs.ifFalse (Scopes.introducingNames_eq_nil.trans hnil)
        hreadable.introducingNames helse
  | loop condition body =>
      exact ⟨hcondition fun _ ho => ho, h.obeys body hs.loop hnil hreadable hunused⟩
  | function d =>
      exact ⟨Scopes.unused_singleton.mp hunused, h.obeysFunction d
        (standsAll_inner (fun _ => hs.of_mem_function) fun _ => rfl) (h.functions hs)⟩
  | giveBack line value =>
      refine ⟨bodyKind_ne_topLevel.mpr (h.returns hs), fun hinitializer => ?_, ?_⟩
      · obtain ⟨d, begun, hfind, hname⟩ := bodyKind_eq_initializer.mp hinitializer
        cases value with
        | none => rfl
        | some e => exact (h.returnsNoValue hs hfind hname).elim
      · exact (Expr.obeysOption_iff value).mpr fun o ho => h.allowed hs ho fun _ => hreadable _
  | classDef name superclass methods =>
      have hfresh := Scopes.unused_singleton.mp hunused
      have hmethods (Γ : Scopes) : FunctionDecl.ObeysAll { setting path with
          classKind := if superclass.isSome then .subclass else .plain } Γ methods :=
        h.obeysMethods methods fun d hd => ⟨hs.standsAll_methods hd, h.methods hs hd⟩
      cases superclass with
      | none => exact ⟨hfresh, hmethods _⟩
      | some ref =>
          exact ⟨hfresh, h.superclasses hs, hreadable.introducing _, hmethods _⟩

theorem Legal.obeysAll (h : Legal program) (ss : List Stmt) {setting : Setting} {Γ : Scopes}
    (hss : StandsAll program setting Γ ss) (hreadable : Γ.AllReadable)
    (hunused : Γ.Unused (ss.flatMap Stmt.declaredNames)) : Stmt.ObeysAll setting Γ ss := by
  cases ss with
  | nil => trivial
  | cons s ss =>
      obtain ⟨⟨path, hs, rfl, hnil⟩, hrest⟩ := List.forall_mem_cons.mp hss
      rw [List.flatMap_cons, Scopes.unused_append] at hunused
      refine ⟨h.obeys s hs hnil hreadable hunused.1, ?_⟩
      rw [s.after_eq]
      exact h.obeysAll ss (StandsAll.introducingNames hrest _) hreadable.introducingNames hunused.2

theorem Legal.obeysFunction (h : Legal program) (d : FunctionDecl) {setting : Setting}
    {Γ : Scopes} (hbody : StandsAll program setting ([] :: Γ) d.body)
    (hnodup : d.declaredNames.Nodup) : d.Obeys setting Γ := by
  cases d with
  | mk name parameters body =>
      obtain ⟨hparameters, hunused⟩ := Scopes.unused_append.mp (Scopes.unused_inner.mpr hnodup)
      refine ⟨Scopes.freshAll_iff.mpr hparameters, ?_⟩
      rw [Scopes.introducingAll_eq]
      exact h.obeysAll body (hbody.introducingNames _) Scopes.allReadable_inner.introducingNames
        hunused

theorem Legal.obeysMethods (h : Legal program) (ds : List FunctionDecl) {setting : Setting}
    {Γ : Scopes} (hds : ∀ d ∈ ds, StandsAll program
      { setting with body := Resolve.methodKind d.name } ([] :: Γ) d.body ∧
      d.declaredNames.Nodup) : FunctionDecl.ObeysAll setting Γ ds := by
  cases ds with
  | nil => trivial
  | cons d ds =>
      obtain ⟨⟨hbody, hnodup⟩, hrest⟩ := List.forall_mem_cons.mp hds
      exact ⟨h.obeysFunction d hbody hnodup, h.obeysMethods ds hrest⟩

end

/-- A program that breaks no rule obeys them. -/
theorem Legal.obeysAll_program (h : Legal program) :
    Stmt.ObeysAll ⟨.topLevel, .outside⟩ [] program :=
  h.obeysAll program (fun _ hs => ⟨[], .topLevel hs, rfl, iff_of_true rfl rfl⟩) (fun _ => trivial)
    trivial

/-- The resolver accepts just the programs that break no rule of scoping. -/
theorem resolve_ok_iff_legal (program : List Stmt) :
    (∃ distances, resolve program = .ok distances) ↔ Legal program := by
  constructor
  · rintro ⟨distances, hresolve⟩
    exact legal_of_obeys (resolve_eq_ok.mp hresolve).1
  · intro h
    exact ⟨_, resolve_eq_ok.mpr ⟨h.obeysAll_program, rfl⟩⟩

end Program

end ScopedScript
