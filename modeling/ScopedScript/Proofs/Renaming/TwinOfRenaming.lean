import ScopedScript.Proofs.Renaming.Twin
import ScopedScript.Proofs.Scope.Nesting

/-!
# A renamed program is a twin

In a program that obeys the rules of scoping, renaming a local declaration to a name that does not
occur exchanges the two names in the scope of the declaration, which declares the old name only
once.
-/

namespace ScopedScript

namespace Scopes

variable {Γ : Scopes} {x y : String} {names : List Name}

theorem not_fresh_introducing (h : ¬Γ.Fresh x) : ¬(Γ.introducing y).Fresh x := by
  cases Γ with
  | nil => exact h
  | cons scope Γ =>
      have hdeclares : scope.declares x = true := (Bool.not_eq_false _).mp h
      change ¬Scope.declares ((y, true) :: (y, false) :: scope) x = false
      simp [Scope.declares_cons, hdeclares]

theorem not_fresh_introducing_self (hΓ : Γ ≠ []) : ¬(Γ.introducing x).Fresh x := by
  cases Γ with
  | nil => exact absurd rfl hΓ
  | cons scope Γ =>
      change ¬Scope.declares ((x, true) :: (x, false) :: scope) x = false
      simp [Scope.declares_cons]

theorem introducing_ne_nil (hΓ : Γ ≠ []) : Γ.introducing x ≠ [] := by
  cases Γ with
  | nil => exact absurd rfl hΓ
  | cons scope Γ => exact List.cons_ne_nil _ _

theorem introducingAll_ne_nil (hΓ : Γ ≠ []) : Γ.introducingAll names ≠ [] := by
  induction names generalizing Γ with
  | nil => exact hΓ
  | cons name names ih => exact ih (introducing_ne_nil hΓ)

theorem not_fresh_introducingAll (h : ¬Γ.Fresh x) : ¬(Γ.introducingAll names).Fresh x := by
  induction names generalizing Γ with
  | nil => exact h
  | cons name names ih => exact ih (not_fresh_introducing h)

theorem not_fresh_introducingAll_of_mem {name : Name} (hΓ : Γ ≠ []) (hname : name ∈ names) :
    ¬(Γ.introducingAll names).Fresh name.text := by
  induction names generalizing Γ with
  | nil => cases hname
  | cons first names ih =>
      rcases List.mem_cons.mp hname with rfl | hlater
      · exact not_fresh_introducingAll (Γ := Γ.introducing name.text)
          (not_fresh_introducing_self hΓ)
      · exact ih (introducing_ne_nil hΓ) hlater

end Scopes

/-- The name that a statement declares, if it is a declaration. -/
def Stmt.declaredName? : Stmt → Option String
  | .var name _ | .classDef name _ _ => some name.text
  | .function d => some d.name.text
  | _ => none

/-- A statement is not the declaration of a function or a class of a given name. -/
def Stmt.DefinesNo (x : String) : Stmt → Prop
  | .function d => d.name.text ≠ x
  | .classDef name _ _ => name.text ≠ x
  | _ => True

section Declarations

variable {setting : Setting} {Γ : Scopes} {x : String} {s : Stmt} {ss : List Stmt}

theorem Stmt.definesNo_of_declaredName? (h : s.declaredName? ≠ some x) : s.DefinesNo x := by
  cases s with
  | function d | classDef name _ _ => exact fun heq => h (congrArg some heq)
  | _ => trivial

theorem Stmt.definesNo_of_declares (h : s.declares = false) : s.DefinesNo x := by
  cases s with
  | function d | classDef _ _ _ => cases h
  | _ => trivial

theorem Stmt.after_eq_introducing (h : s.declaredName? = some x) :
    s.after Γ = Γ.introducing x := by
  cases s with
  | var _ _ | function _ | classDef _ _ _ =>
      cases h
      rfl
  | _ => cases h

theorem Stmt.Obeys.fresh (hobeys : s.Obeys setting Γ) (h : s.declaredName? = some x) :
    Γ.Fresh x := by
  cases s with
  | var _ _ | function _ =>
      cases h
      exact hobeys.1
  | classDef _ superclass _ =>
      cases h
      cases superclass with
      | none | some _ => exact hobeys.1
  | _ => cases h

theorem Stmt.not_fresh_after (hformed : s.Formed) (h : ¬Γ.Fresh x) : ¬(s.after Γ).Fresh x := by
  cases hdeclares : s.declares with
  | false => rwa [s.after_eq_self hformed hdeclares]
  | true =>
      cases s with
      | var _ _ | function _ | classDef _ _ _ => exact Scopes.not_fresh_introducing h
      | _ => cases hdeclares

theorem Stmt.after_ne_nil (hformed : s.Formed) (hΓ : Γ ≠ []) : s.after Γ ≠ [] := by
  cases hdeclares : s.declares with
  | false => rwa [s.after_eq_self hformed hdeclares]
  | true =>
      cases s with
      | var _ _ | function _ | classDef _ _ _ => exact Scopes.introducing_ne_nil hΓ
      | _ => cases hdeclares

/-- A name that a scope declares is not declared there again. -/
theorem Stmt.declaredName?_ne_of_not_fresh (hobeys : Stmt.ObeysAll setting Γ ss)
    (hformed : Stmt.FormedAll ss) (h : ¬Γ.Fresh x) : ∀ s ∈ ss, s.declaredName? ≠ some x := by
  induction ss generalizing Γ with
  | nil => exact fun _ hs => (List.not_mem_nil hs).elim
  | cons s ss ih =>
      refine List.forall_mem_cons.mpr ⟨fun hdeclared => h (hobeys.1.fresh hdeclared), ?_⟩
      exact ih hobeys.2 hformed.2 (Stmt.not_fresh_after hformed.1 h)

/-- In a scope that declares a variable, no function and no class has its name. -/
theorem DeclaresVar.definesNo (h : DeclaresVar x ss) (hobeys : Stmt.ObeysAll setting Γ ss)
    (hformed : Stmt.FormedAll ss) (hΓ : Γ ≠ []) : ∀ s ∈ ss, s.DefinesNo x := by
  obtain ⟨line, initial, hmem⟩ := h
  induction ss generalizing Γ with
  | nil => cases hmem
  | cons s ss ih =>
      obtain ⟨hfirst, hrest⟩ := hobeys
      obtain ⟨hformedFirst, hformedRest⟩ := hformed
      rcases List.mem_cons.mp hmem with rfl | hlater
      -- what follows the variable does not declare its name again
      · refine List.forall_mem_cons.mpr ⟨trivial, fun t ht => ?_⟩
        exact Stmt.definesNo_of_declaredName? (Stmt.declaredName?_ne_of_not_fresh hrest hformedRest
          (Scopes.not_fresh_introducing_self hΓ) t ht)
      · refine List.forall_mem_cons.mpr
          ⟨?_, ih hrest hformedRest (Stmt.after_ne_nil hformedFirst hΓ) hlater⟩
        -- if this statement declared the name, the variable after it could not
        refine Stmt.definesNo_of_declaredName? fun hdeclared => ?_
        refine Stmt.declaredName?_ne_of_not_fresh hrest hformedRest ?_ _ hlater rfl
        rw [Stmt.after_eq_introducing hdeclared]
        exact Scopes.not_fresh_introducing_self hΓ

end Declarations

section Congruence

variable {f g : Reference → Reference} {Γ : Scopes}

mutual

/-- Only the references of an expression matter for what replaces them. -/
theorem Expr.mapReferences_congr (e : Expr)
    (h : ∀ ref : Reference, ref.name.text ∈ e.names → ref.id ∈ idsOf (e.records Γ) →
      f ref = g ref) : e.mapReferences f = e.mapReferences g := by
  cases e with
  | literal _ | receiver _ _ | inherited _ _ _ => rfl
  | unary _ _ operand => exact congrArg _ (operand.mapReferences_congr h)
  | grouping inner => exact congrArg _ (inner.mapReferences_congr h)
  | binary op line left right =>
      simp only [Expr.names, Expr.records, idsOf_append, List.mem_append] at h
      rw [Expr.mapReferences, Expr.mapReferences,
        left.mapReferences_congr fun ref hname hid => h ref (.inl hname) (.inl hid),
        right.mapReferences_congr fun ref hname hid => h ref (.inr hname) (.inr hid)]
  | logical op line left right =>
      simp only [Expr.names, Expr.records, idsOf_append, List.mem_append] at h
      rw [Expr.mapReferences, Expr.mapReferences,
        left.mapReferences_congr fun ref hname hid => h ref (.inl hname) (.inl hid),
        right.mapReferences_congr fun ref hname hid => h ref (.inr hname) (.inr hid)]
  | name ref =>
      exact congrArg _ (h ref List.mem_cons_self List.mem_cons_self)
  | assign ref value =>
      simp only [Expr.names, Expr.records, idsOf_append, List.mem_append, List.mem_cons] at h
      rw [Expr.mapReferences, Expr.mapReferences, h ref (.inl rfl) (.inr List.mem_cons_self),
        value.mapReferences_congr fun ref hname hid => h ref (.inr hname) (.inl hid)]
  | call callee line arguments =>
      simp only [Expr.names, Expr.records, idsOf_append, List.mem_append] at h
      rw [Expr.mapReferences, Expr.mapReferences,
        callee.mapReferences_congr fun ref hname hid => h ref (.inl hname) (.inl hid),
        Expr.mapReferencesAll_congr arguments fun ref hname hid => h ref (.inr hname) (.inr hid)]
  | get object property =>
      simp only [Expr.names, List.mem_cons] at h
      rw [Expr.mapReferences, Expr.mapReferences,
        object.mapReferences_congr fun ref hname hid => h ref (.inr hname) hid]
  | set object property value =>
      simp only [Expr.names, Expr.records, idsOf_append, List.mem_append, List.mem_cons] at h
      rw [Expr.mapReferences, Expr.mapReferences,
        object.mapReferences_congr fun ref hname hid => h ref (.inr (.inl hname)) (.inr hid),
        value.mapReferences_congr fun ref hname hid => h ref (.inr (.inr hname)) (.inl hid)]

theorem Expr.mapReferencesAll_congr (es : List Expr)
    (h : ∀ ref : Reference, ref.name.text ∈ Expr.namesAll es →
      ref.id ∈ idsOf (Expr.recordsAll Γ es) → f ref = g ref) :
    Expr.mapReferencesAll f es = Expr.mapReferencesAll g es := by
  cases es with
  | nil => rfl
  | cons e es =>
      simp only [Expr.namesAll, Expr.recordsAll, idsOf_append, List.mem_append] at h
      rw [Expr.mapReferencesAll, Expr.mapReferencesAll,
        e.mapReferences_congr fun ref hname hid => h ref (.inl hname) (.inl hid),
        Expr.mapReferencesAll_congr es fun ref hname hid => h ref (.inr hname) (.inr hid)]

end

theorem Expr.mapReferencesOption_congr (e : Option Expr)
    (h : ∀ ref : Reference, ref.name.text ∈ Expr.namesOption e →
      ref.id ∈ idsOf (Expr.recordsOption Γ e) → f ref = g ref) :
    Expr.mapReferencesOption f e = Expr.mapReferencesOption g e := by
  cases e with
  | none => rfl
  | some e => exact congrArg some (e.mapReferences_congr h)

end Congruence

/-- Just the scope at a distance is marked. -/
def Marks.Only (depth : Nat) (marks : Marks) : Prop := ∀ d, marks.at d = decide (d = depth)

theorem Marks.Only.cons {depth : Nat} {marks : Marks} (h : marks.Only depth) :
    Marks.Only (depth + 1) (false :: marks) := by
  intro d
  cases d with
  | zero => rfl
  | succ d => exact (h d).trans (by simp)

theorem Marks.only_zero {marks : Marks} (h : ∀ d, marks.at d = false) :
    Marks.Only 0 (true :: marks) := by
  intro d
  cases d with
  | zero => rfl
  | succ d => exact (h d).trans (by simp)

/-- A table knows of some references what is known of them in another one. -/
def AgreeOn (distances distances' : Distances) (rs : List Record) : Prop :=
  ∀ id ∈ idsOf rs, distances'[id]? = distances[id]?

namespace AgreeOn

variable {distances distances' : Distances} {rs rs' : List Record} {r : Record}

theorem append : AgreeOn distances distances' (rs ++ rs') ↔
    AgreeOn distances distances' rs ∧ AgreeOn distances distances' rs' := by
  unfold AgreeOn
  rw [idsOf_append]
  exact List.forall_mem_append

theorem cons : AgreeOn distances distances' (r :: rs) ↔
    distances'[r.1]? = distances[r.1]? ∧ AgreeOn distances distances' rs := List.forall_mem_cons

end AgreeOn

section Renamed

variable {ρ : Renaming} {distances : Distances}

/-- The same renaming, with the distances of more references known. -/
abbrev Renaming.over (ρ : Renaming) (distances : Distances) : Renaming :=
  { ρ with distances := distances }

theorem Renaming.twinName_eq_name {name : Name} {marked : Bool} (hne : name.text ≠ ρ.new) :
    (ρ.over distances).twinName marked name = if marked = true then ρ.name name else name := by
  cases marked with
  | false => rfl
  | true =>
      rw [if_pos rfl]
      unfold Renaming.twinName Renaming.exchange Renaming.swap Renaming.name
      by_cases hold : name.text = ρ.old
      · simp [hold]
      · simp [hold, hne]

theorem Renaming.twinReference_eq_reference {marks : Marks} {depth : Nat} {ref : Reference}
    (hmarks : marks.Only depth) (hne : ref.name.text ≠ ρ.new)
    (hagree : distances[ref.id]? = ρ.distances[ref.id]?) :
    (ρ.over distances).twinReference marks ref = ρ.reference depth ref := by
  unfold Renaming.twinReference Renaming.reference
  simp only [hagree]
  cases ρ.distances[ref.id]? with
  | none => rfl
  | some d =>
      simp only [Renaming.twinName_eq_name hne, hmarks d, decide_eq_true_eq, Option.some.injEq]
      by_cases hd : d = depth <;> simp [hd]

theorem Expr.mapReferences_eq_renamed (e : Expr) {marks : Marks} {depth : Nat} {Γ : Scopes}
    (hmarks : marks.Only depth) (hnames : ρ.new ∉ e.names)
    (hagree : AgreeOn ρ.distances distances (e.records Γ)) :
    e.mapReferences ((ρ.over distances).twinReference marks) =
      e.mapReferences (ρ.reference depth) :=
  e.mapReferences_congr fun _ hname hid => Renaming.twinReference_eq_reference hmarks
    (fun h => hnames (h ▸ hname)) (hagree _ hid)

theorem Expr.mapReferencesOption_eq_renamed (e : Option Expr) {marks : Marks} {depth : Nat}
    {Γ : Scopes} (hmarks : marks.Only depth) (hnames : ρ.new ∉ Expr.namesOption e)
    (hagree : AgreeOn ρ.distances distances (Expr.recordsOption Γ e)) :
    Expr.mapReferencesOption ((ρ.over distances).twinReference marks) e =
      Expr.mapReferencesOption (ρ.reference depth) e :=
  Expr.mapReferencesOption_congr e fun _ hname hid => Renaming.twinReference_eq_reference hmarks
    (fun h => hnames (h ▸ hname)) (hagree _ hid)

theorem Renaming.exchange_of_definesNo {marks : Marks} {depth : Nat} {x : String}
    (hmarks : marks.Only depth) (hne : x ≠ ρ.new) (hold : depth = 0 → x ≠ ρ.old) :
    (ρ.over distances).exchange (marks.at 0) x = x := by
  rw [hmarks 0]
  cases depth with
  | zero => exact Renaming.exchange_of_ne (hold rfl) hne
  | succ depth => rfl

mutual

/-- Renaming a variable whose scope is the only marked one gives a twin, if nothing else that this
scope declares has its name. -/
theorem Stmt.twin_renamed (s : Stmt) {marks : Marks} {depth : Nat} {Γ : Scopes}
    (hformed : s.Formed) (hmarks : marks.Only depth) (hnames : ρ.new ∉ s.names)
    (hagree : AgreeOn ρ.distances distances (s.records Γ))
    (hdefines : depth = 0 → s.DefinesNo ρ.old) :
    Stmt.Twin (ρ.over distances) marks s (s.renamed ρ depth) := by
  cases s with
  | expression e =>
      rw [Stmt.renamed, ← e.mapReferences_eq_renamed hmarks hnames hagree]
      exact .expression
  | print e =>
      rw [Stmt.renamed, ← e.mapReferences_eq_renamed hmarks hnames hagree]
      exact .print
  | var name initial =>
      simp only [Stmt.names, List.mem_cons, not_or] at hnames
      -- at depth zero the innermost scope is the marked one, and the declaration is renamed with it
      have hname : (ρ.over distances).twinName (marks.at 0) name =
          if depth = 0 then ρ.name name else name := by
        rw [Renaming.twinName_eq_name (Ne.symm hnames.1), hmarks 0]
        by_cases hdepth : depth = 0
        · simp [hdepth]
        · simp [hdepth, Ne.symm hdepth]
      rw [Stmt.renamed, ← hname,
        ← Expr.mapReferencesOption_eq_renamed initial hmarks hnames.2 hagree]
      exact .var
  | block body =>
      exact .block (Stmt.twinAll_renamed body hformed hmarks.cons hnames hagree fun h => nomatch h)
  | ifThen condition thenBranch =>
      simp only [Stmt.names, List.mem_append, not_or] at hnames
      obtain ⟨hcondition, hthen⟩ := AgreeOn.append.mp hagree
      rw [Stmt.renamed, ← condition.mapReferences_eq_renamed hmarks hnames.1 hcondition]
      -- a branch lies in the same scope as the conditional, but declares nothing there
      exact .ifThen (thenBranch.twin_renamed hformed.2 hmarks hnames.2 hthen
        fun _ => Stmt.definesNo_of_declares hformed.1)
  | ifElse condition thenBranch elseBranch =>
      simp only [Stmt.names, List.mem_append, not_or] at hnames
      obtain ⟨hcondition, hbranches⟩ := AgreeOn.append.mp hagree
      obtain ⟨hthen, helse⟩ := AgreeOn.append.mp hbranches
      obtain ⟨⟨hthenDeclares, hthenFormed⟩, helseDeclares, helseFormed⟩ := hformed
      rw [Stmt.renamed, ← condition.mapReferences_eq_renamed hmarks hnames.1 hcondition]
      exact .ifElse
        (thenBranch.twin_renamed hthenFormed hmarks hnames.2.1 hthen
          fun _ => Stmt.definesNo_of_declares hthenDeclares)
        (elseBranch.twin_renamed helseFormed hmarks hnames.2.2 helse
          fun _ => Stmt.definesNo_of_declares helseDeclares)
  | loop condition body =>
      simp only [Stmt.names, List.mem_append, not_or] at hnames
      obtain ⟨hcondition, hbody⟩ := AgreeOn.append.mp hagree
      rw [Stmt.renamed, ← condition.mapReferences_eq_renamed hmarks hnames.1 hcondition]
      exact .loop (body.twin_renamed hformed.2 hmarks hnames.2 hbody
        fun _ => Stmt.definesNo_of_declares hformed.1)
  | function d =>
      have hname : d.name.text ≠ ρ.new := by
        rintro heq
        cases d with
        | mk name parameters body => exact hnames (heq ▸ List.mem_cons_self)
      exact .function (Renaming.exchange_of_definesNo hmarks hname hdefines)
        (FunctionDecl.twin_renamed d hformed hmarks.cons hnames hagree fun h => nomatch h)
  | giveBack line value =>
      rw [Stmt.renamed, ← Expr.mapReferencesOption_eq_renamed value hmarks hnames hagree]
      exact .giveBack
  | classDef name superclass methods =>
      cases superclass with
      | none =>
          simp only [Stmt.names, List.mem_cons, not_or] at hnames
          exact .plainClass (Renaming.exchange_of_definesNo hmarks (Ne.symm hnames.1) hdefines)
            (FunctionDecl.twinAll_renamed methods hformed.2 hmarks.cons.cons hnames.2 hagree)
      | some ref =>
          simp only [Stmt.names, List.mem_cons, not_or] at hnames
          obtain ⟨href, hmethods⟩ := AgreeOn.cons.mp hagree
          rw [Stmt.renamed, ← Renaming.twinReference_eq_reference hmarks (Ne.symm hnames.2.1) href]
          exact .subclass (Renaming.exchange_of_definesNo hmarks (Ne.symm hnames.1) hdefines)
            (FunctionDecl.twinAll_renamed methods hformed.2 hmarks.cons.cons.cons hnames.2.2
              hmethods)

theorem Stmt.twinAll_renamed (ss : List Stmt) {marks : Marks} {depth : Nat} {Γ : Scopes}
    (hformed : Stmt.FormedAll ss) (hmarks : marks.Only depth) (hnames : ρ.new ∉ Stmt.namesAll ss)
    (hagree : AgreeOn ρ.distances distances (Stmt.recordsAll Γ ss))
    (hdefines : depth = 0 → ∀ s ∈ ss, s.DefinesNo ρ.old) :
    Stmt.TwinAll (ρ.over distances) marks ss (Stmt.renamedAll ρ depth ss) := by
  cases ss with
  | nil => exact .nil
  | cons s ss =>
      simp only [Stmt.namesAll, List.mem_append, not_or] at hnames
      obtain ⟨hfirst, hrest⟩ := AgreeOn.append.mp hagree
      refine .cons (s.twin_renamed hformed.1 hmarks hnames.1 hfirst ?_)
        (Stmt.twinAll_renamed ss hformed.2 hmarks hnames.2 hrest ?_)
      · exact fun h => hdefines h s List.mem_cons_self
      · exact fun h t ht => hdefines h t (List.mem_cons_of_mem s ht)

/-- The first of the marks is that of the function's own scope. -/
theorem FunctionDecl.twin_renamed (d : FunctionDecl) {marks : Marks} {b : Bool} {depth : Nat}
    {Γ : Scopes} (hformed : d.Formed) (hmarks : Marks.Only depth (b :: marks))
    (hnames : ρ.new ∉ FunctionDecl.names d)
    (hagree : AgreeOn ρ.distances distances (d.records Γ))
    (hdefines : depth = 0 → ∀ s ∈ d.body, s.DefinesNo ρ.old) :
    FunctionDecl.Twin (ρ.over distances) marks d (FunctionDecl.renamed ρ depth d) := by
  cases d with
  | mk name parameters body =>
      simp only [FunctionDecl.names, List.mem_cons, List.mem_append, List.mem_map, not_or] at hnames
      -- the scope of the function is the marked one just if the variable is declared in it
      have hb : b = decide (0 = depth) := hmarks 0
      have hparameters : parameters.map ((ρ.over distances).twinName b) =
          if depth = 0 then parameters.map ρ.name else parameters := by
        have hname : ∀ p ∈ parameters, (ρ.over distances).twinName b p =
            if b = true then ρ.name p else p := fun p hp =>
          Renaming.twinName_eq_name fun h => hnames.2.1 ⟨p, hp, h⟩
        rw [List.map_congr_left hname, hb]
        by_cases hdepth : depth = 0
        · simp [hdepth]
        · simp [hdepth, Ne.symm hdepth]
      rw [FunctionDecl.renamed, ← hparameters]
      exact .mk (Stmt.twinAll_renamed body hformed.2.2 hmarks hnames.2.2 hagree hdefines)

theorem FunctionDecl.twinAll_renamed (ds : List FunctionDecl) {marks : Marks} {b : Bool}
    {depth : Nat} {Γ : Scopes} (hformed : FunctionDecl.FormedAll ds)
    (hmarks : Marks.Only (depth + 1) (b :: marks)) (hnames : ρ.new ∉ FunctionDecl.namesAll ds)
    (hagree : AgreeOn ρ.distances distances (FunctionDecl.recordsAll Γ ds)) :
    FunctionDecl.TwinAll (ρ.over distances) marks ds
      (FunctionDecl.renamedAll ρ (depth + 1) ds) := by
  cases ds with
  | nil => exact .nil
  | cons d ds =>
      simp only [FunctionDecl.namesAll, List.mem_append, not_or] at hnames
      obtain ⟨hfirst, hrest⟩ := AgreeOn.append.mp hagree
      exact .cons
        (FunctionDecl.twin_renamed d hformed.1 hmarks hnames.1 hfirst fun h => nomatch h)
        (FunctionDecl.twinAll_renamed ds hformed.2 hmarks hnames.2 hrest)

end

mutual

/-- Renaming one local declaration of a statement gives a twin. -/
theorem Stmt.RenamesTo.twin {s s' : Stmt} (h : Stmt.RenamesTo ρ s s') {setting : Setting}
    {marks : Marks} {Γ : Scopes} (hmarks : ∀ d, marks.at d = false) (hformed : s.Formed)
    (hobeys : s.Obeys setting Γ) (hnames : ρ.new ∉ s.names)
    (hagree : AgreeOn ρ.distances distances (s.records Γ)) :
    Stmt.Twin (ρ.over distances) marks s s' := by
  cases h with
  | @here body hdeclares =>
      exact .block (Stmt.twinAll_renamed body hformed (Marks.only_zero hmarks) hnames hagree
        fun _ => hdeclares.definesNo hobeys hformed (List.cons_ne_nil _ _))
  | block hbody =>
      exact .block (hbody.twin (Marks.at_cons_of_unmarked hmarks) hformed hobeys hnames hagree)
  | @ifThen condition s s' hs =>
      simp only [Stmt.names, List.mem_append, not_or] at hnames
      obtain ⟨_, hthen⟩ := AgreeOn.append.mp hagree
      exact .ifThen_of_unmarked hmarks (hs.twin hmarks hformed.2 hobeys.2 hnames.2 hthen)
  | @thenBranch condition s s' elseBranch hs =>
      simp only [Stmt.names, List.mem_append, not_or] at hnames
      obtain ⟨_, hbranches⟩ := AgreeOn.append.mp hagree
      obtain ⟨hthen, _⟩ := AgreeOn.append.mp hbranches
      exact .ifElse_of_unmarked hmarks
        (hs.twin hmarks hformed.1.2 hobeys.2.1 hnames.2.1 hthen) (elseBranch.twin_self hmarks)
  | @elseBranch condition thenBranch s s' hs =>
      simp only [Stmt.names, List.mem_append, not_or] at hnames
      obtain ⟨_, hbranches⟩ := AgreeOn.append.mp hagree
      obtain ⟨_, helse⟩ := AgreeOn.append.mp hbranches
      exact .ifElse_of_unmarked hmarks (thenBranch.twin_self hmarks)
        (hs.twin hmarks hformed.2.2 hobeys.2.2 hnames.2.2 helse)
  | @loop condition s s' hs =>
      simp only [Stmt.names, List.mem_append, not_or] at hnames
      obtain ⟨_, hbody⟩ := AgreeOn.append.mp hagree
      exact .loop_of_unmarked hmarks (hs.twin hmarks hformed.2 hobeys.2 hnames.2 hbody)
  | function hd =>
      refine .function ?_ (hd.twin hmarks hformed hobeys.2 hnames hagree)
      rw [hmarks]
      rfl
  | @classDef name superclass ds ds' hds =>
      refine .classDef_of_unmarked hmarks fun _ hinner => ?_
      cases superclass with
      | none =>
          simp only [Stmt.names, List.mem_cons, not_or] at hnames
          exact hds.twin hinner hformed.2 hobeys.2 hnames.2 hagree
      | some ref =>
          simp only [Stmt.names, List.mem_cons, not_or] at hnames
          obtain ⟨_, hmethods⟩ := AgreeOn.cons.mp hagree
          exact hds.twin hinner hformed.2 hobeys.2.2.2 hnames.2.2 hmethods

theorem Stmt.RenamesToAll.twin {ss ss' : List Stmt} (h : Stmt.RenamesToAll ρ ss ss')
    {setting : Setting} {marks : Marks} {Γ : Scopes} (hmarks : ∀ d, marks.at d = false)
    (hformed : Stmt.FormedAll ss) (hobeys : Stmt.ObeysAll setting Γ ss)
    (hnames : ρ.new ∉ Stmt.namesAll ss)
    (hagree : AgreeOn ρ.distances distances (Stmt.recordsAll Γ ss)) :
    Stmt.TwinAll (ρ.over distances) marks ss ss' := by
  cases h with
  | first hs =>
      simp only [Stmt.namesAll, List.mem_append, not_or] at hnames
      obtain ⟨hfirst, _⟩ := AgreeOn.append.mp hagree
      exact .cons (hs.twin hmarks hformed.1 hobeys.1 hnames.1 hfirst) (Stmt.twinAll_self _ hmarks)
  | later hss =>
      simp only [Stmt.namesAll, List.mem_append, not_or] at hnames
      obtain ⟨_, hrest⟩ := AgreeOn.append.mp hagree
      exact .cons (Stmt.twin_self _ hmarks)
        (hss.twin hmarks hformed.2 hobeys.2 hnames.2 hrest)

theorem FunctionDecl.RenamesTo.twin {d d' : FunctionDecl} (h : FunctionDecl.RenamesTo ρ d d')
    {setting : Setting} {marks : Marks} {Γ : Scopes} (hmarks : ∀ d, marks.at d = false)
    (hformed : d.Formed) (hobeys : d.Obeys setting Γ) (hnames : ρ.new ∉ FunctionDecl.names d)
    (hagree : AgreeOn ρ.distances distances (d.records Γ)) :
    FunctionDecl.Twin (ρ.over distances) marks d d' := by
  cases h with
  | parameter hparameter =>
      refine FunctionDecl.twin_renamed d hformed (Marks.only_zero hmarks) hnames hagree fun _ => ?_
      cases d with
      | mk name parameters body =>
          obtain ⟨p, hp, hold⟩ := hparameter
          intro s hs
          -- the body lies in the scope of the parameters, so it declares none of their names
          have hdeclared := Scopes.not_fresh_introducingAll_of_mem (Γ := [] :: Γ)
            (List.cons_ne_nil _ _) hp
          rw [← hold]
          exact Stmt.definesNo_of_declaredName?
            (Stmt.declaredName?_ne_of_not_fresh hobeys.2 hformed.2.2 hdeclared s hs)
  | here hdeclares =>
      refine FunctionDecl.twin_renamed d hformed (Marks.only_zero hmarks) hnames hagree fun _ => ?_
      cases d with
      | mk name parameters body =>
          exact hdeclares.definesNo hobeys.2 hformed.2.2
            (Scopes.introducingAll_ne_nil (List.cons_ne_nil _ _))
  | @body name parameters body body' hbody =>
      simp only [FunctionDecl.names, List.mem_cons, List.mem_append, not_or] at hnames
      have hunmarked := Marks.at_cons_of_unmarked hmarks
      exact .of_body (hbody.twin hunmarked hformed.2.2 hobeys.2 hnames.2.2 hagree)

theorem FunctionDecl.RenamesToAll.twin {ds ds' : List FunctionDecl}
    (h : FunctionDecl.RenamesToAll ρ ds ds') {setting : Setting} {marks : Marks} {Γ : Scopes}
    (hmarks : ∀ d, marks.at d = false) (hformed : FunctionDecl.FormedAll ds)
    (hobeys : FunctionDecl.ObeysAll setting Γ ds) (hnames : ρ.new ∉ FunctionDecl.namesAll ds)
    (hagree : AgreeOn ρ.distances distances (FunctionDecl.recordsAll Γ ds)) :
    FunctionDecl.TwinAll (ρ.over distances) marks ds ds' := by
  cases h with
  | first hd =>
      simp only [FunctionDecl.namesAll, List.mem_append, not_or] at hnames
      obtain ⟨hfirst, _⟩ := AgreeOn.append.mp hagree
      exact .cons (hd.twin hmarks hformed.1 hobeys.1 hnames.1 hfirst)
        (FunctionDecl.twinAll_self _ hmarks)
  | later hds =>
      simp only [FunctionDecl.namesAll, List.mem_append, not_or] at hnames
      obtain ⟨_, hrest⟩ := AgreeOn.append.mp hagree
      exact .cons (FunctionDecl.twin_self _ hmarks)
        (hds.twin hmarks hformed.2 hobeys.2 hnames.2 hrest)

end

theorem DeclaresVar.ordinary {x : String} {ss : List Stmt} (h : DeclaresVar x ss)
    (hformed : Stmt.FormedAll ss) : Ordinary x := by
  obtain ⟨line, initial, hmem⟩ := h
  exact Stmt.formed_of_mem hformed hmem

mutual

/-- A local variable that is renamed has an ordinary name. -/
theorem Stmt.RenamesTo.ordinary {s s' : Stmt} (h : Stmt.RenamesTo ρ s s') (hformed : s.Formed) :
    Ordinary ρ.old := by
  cases h with
  | here hdeclares => exact hdeclares.ordinary hformed
  | block hbody => exact hbody.ordinary hformed
  | ifThen hs | loop hs => exact hs.ordinary hformed.2
  | thenBranch hs => exact hs.ordinary hformed.1.2
  | elseBranch hs => exact hs.ordinary hformed.2.2
  | function hd => exact hd.ordinary hformed
  | classDef hds => exact hds.ordinary hformed.2

theorem Stmt.RenamesToAll.ordinary {ss ss' : List Stmt} (h : Stmt.RenamesToAll ρ ss ss')
    (hformed : Stmt.FormedAll ss) : Ordinary ρ.old := by
  cases h with
  | first hs => exact hs.ordinary hformed.1
  | later hss => exact hss.ordinary hformed.2

theorem FunctionDecl.RenamesTo.ordinary {d d' : FunctionDecl} (h : FunctionDecl.RenamesTo ρ d d')
    (hformed : d.Formed) : Ordinary ρ.old := by
  cases d with
  | mk name parameters body =>
      cases h with
      | parameter hparameter =>
          obtain ⟨p, hp, hold⟩ := hparameter
          rw [← hold]
          exact hformed.2.1 p hp
      | here hdeclares => exact hdeclares.ordinary hformed.2.2
      | body hbody => exact hbody.ordinary hformed.2.2

theorem FunctionDecl.RenamesToAll.ordinary {ds ds' : List FunctionDecl}
    (h : FunctionDecl.RenamesToAll ρ ds ds') (hformed : FunctionDecl.FormedAll ds) :
    Ordinary ρ.old := by
  cases h with
  | first hd => exact hd.ordinary hformed.1
  | later hds => exact hds.ordinary hformed.2

end

end Renamed

end ScopedScript
