import Mathlib.Data.List.Forall2
import Mathlib.Order.Bounds.Basic
import ScopedScript.Proofs.Scope.Enclosure
import ScopedScript.Proofs.Session.Preparation

/-!
# Distances are lexical

What is found for a reference is told by the text around it: its distance is the number of scopes
between it and the nearest one that has begun to declare its name, and it has none if there is no
such scope.
-/

namespace ScopedScript

namespace Scopes

variable {Γ : Scopes} {path : List Enclosure} {x : String} {d : Nat}

/-- Scopes declare the names whose declarations have begun in the scopes around a place. -/
abbrev Follow (Γ : Scopes) (path : List Enclosure) : Prop :=
  List.Forall₂ (fun scope enclosure => ∀ x, scope.declares x = true ↔ x ∈ enclosure.declared) Γ path

theorem Follow.exists_iff (h : Γ.Follow path) (i : Nat) :
    (∃ scope, Γ[i]? = some scope ∧ scope.declares x = true) ↔
      ∃ enclosure, path[i]? = some enclosure ∧ x ∈ enclosure.declared := by
  induction h generalizing i with
  | nil => simp
  | cons hdeclares _ ih =>
      cases i with
      | zero => simpa using hdeclares x
      | succ i => simpa using ih i

theorem locate?_isLeast (h : Γ.locate? x = some d) :
    IsLeast {i : Nat | ∃ scope, Γ[i]? = some scope ∧ scope.declares x = true} d := by
  refine ⟨getElem?_of_locate? h, ?_⟩
  rintro i ⟨scope, hscope, hdeclares⟩
  obtain ⟨hlt, rfl⟩ := List.getElem?_eq_some_iff.mp hscope
  obtain ⟨_, _, hbefore⟩ := List.findIdx?_eq_some_iff_getElem.mp h
  exact Nat.le_of_not_lt fun hi => hbefore i hi hdeclares

/-- The distance that is found for a name is that of the nearest scope that has begun to declare
it. -/
theorem Follow.locate?_eq_some_iff (h : Γ.Follow path) : Γ.locate? x = some d ↔
    IsLeast {i : Nat | ∃ scope, path[i]? = some scope ∧ x ∈ scope.declared} d := by
  have hset : {i : Nat | ∃ scope, path[i]? = some scope ∧ x ∈ scope.declared} =
      {i : Nat | ∃ scope, Γ[i]? = some scope ∧ scope.declares x = true} :=
    Set.ext fun i => (h.exists_iff i).symm
  rw [hset]
  refine ⟨locate?_isLeast, fun hleast => ?_⟩
  cases hlocate : Γ.locate? x with
  | some d' => rw [(locate?_isLeast hlocate).unique hleast]
  | none =>
      obtain ⟨scope, hscope, hdeclares⟩ := hleast.1
      rw [List.findIdx?_eq_none_iff.mp hlocate scope (List.mem_of_getElem? hscope)] at hdeclares
      cases hdeclares

/-- No distance is found for a name if no scope has begun to declare it. -/
theorem Follow.locate?_eq_none_iff (h : Γ.Follow path) :
    Γ.locate? x = none ↔ ∀ scope ∈ path, x ∉ scope.declared := by
  unfold locate?
  rw [List.findIdx?_eq_none_iff]
  induction h with
  | nil => simp
  | cons hdeclares _ ih =>
      rw [List.forall_mem_cons, List.forall_mem_cons, ih, ← hdeclares x, Bool.not_eq_true]

/-- A new scope follows the names that are declared in it. -/
theorem Follow.inner (h : Γ.Follow path) {enclosure : Enclosure} {xs : List String}
    (hdeclared : enclosure.declared = xs) :
    Scopes.Follow (Scopes.introducingNames ([] :: Γ) xs) (enclosure :: path) := by
  obtain ⟨scope, heq, hdeclares⟩ := exists_introducingNames_eq [] Γ xs
  rw [heq]
  refine .cons (fun x => ?_) h
  rw [hdeclares, hdeclared]
  simp [Scope.declares]

end Scopes

/-! ### What is found for the references of a statement -/

section Own

variable {Γ : Scopes} {o : Occurrence}

mutual

theorem Expr.record_mem (e : Expr) (ho : o ∈ e.occurrences) :
    Γ.record o.id o.word ∈ e.records Γ := by
  cases e with
  | literal value => cases ho
  | unary op line operand => exact operand.record_mem ho
  | binary op line left right | logical op line left right =>
      rcases List.mem_append.mp ho with hleft | hright
      · exact List.mem_append_left _ (left.record_mem hleft)
      · exact List.mem_append_right _ (right.record_mem hright)
  | grouping inner => exact inner.record_mem ho
  | name ref =>
      cases List.mem_singleton.mp ho
      exact List.mem_cons_self
  | assign ref value =>
      rcases List.mem_cons.mp ho with rfl | hvalue
      · exact List.mem_append_right _ List.mem_cons_self
      · exact List.mem_append_left _ (value.record_mem hvalue)
  | call callee line arguments =>
      rcases List.mem_append.mp ho with hcallee | harguments
      · exact List.mem_append_left _ (callee.record_mem hcallee)
      · exact List.mem_append_right _ (Expr.record_mem_all arguments harguments)
  | get object property => exact object.record_mem ho
  | set object property value =>
      rcases List.mem_append.mp ho with hobject | hvalue
      · exact List.mem_append_right _ (object.record_mem hobject)
      · exact List.mem_append_left _ (value.record_mem hvalue)
  | receiver id line =>
      cases List.mem_singleton.mp ho
      exact List.mem_cons_self
  | inherited id line method =>
      cases List.mem_singleton.mp ho
      exact List.mem_cons_self

theorem Expr.record_mem_all (es : List Expr) (ho : o ∈ Expr.occurrencesAll es) :
    Γ.record o.id o.word ∈ Expr.recordsAll Γ es := by
  cases es with
  | nil => cases ho
  | cons e es =>
      rcases List.mem_append.mp ho with hfirst | hlater
      · exact List.mem_append_left _ (e.record_mem hfirst)
      · exact List.mem_append_right _ (Expr.record_mem_all es hlater)

end

/-- In the course of a declaration, names are found where they are once it is complete. -/
theorem Scopes.locate?_declaring (Γ : Scopes) (x y : String) :
    (Γ.declaring x).locate? y = (Γ.introducing x).locate? y := by
  cases Γ with
  | nil => rfl
  | cons scope outer =>
      change Scopes.locate? (((x, false) :: scope) :: outer) y =
        Scopes.locate? (((x, true) :: (x, false) :: scope) :: outer) y
      simp only [Scopes.locate?_cons, Scope.declares_cons, Bool.or_self_left]

/-- What is found for a reference that a statement has of its own is found in the scopes after the
statement: what it declares, it has begun to declare before. -/
theorem Stmt.record_mem {s : Stmt} (hformed : s.Formed) (ho : o ∈ s.ownOccurrences) :
    (s.after Γ).record o.id o.word ∈ s.records Γ := by
  cases s with
  | expression e | print e => exact e.record_mem ho
  | var name initial =>
      cases initial with
      | none => cases ho
      | some e =>
          have ho' : o ∈ e.occurrences := by
            simpa [Stmt.ownOccurrences, Expr.occurrencesOption] using ho
          have hmem := e.record_mem (Γ := Γ.declaring name.text) ho'
          rwa [Scopes.record, Scopes.locate?_declaring] at hmem
  | block _ | function _ => cases ho
  | ifThen condition thenBranch =>
      rw [Stmt.after_eq_self _ hformed rfl]
      exact List.mem_append_left _ (condition.record_mem ho)
  | ifElse condition thenBranch elseBranch =>
      rw [Stmt.after_eq_self _ hformed rfl]
      exact List.mem_append_left _ (condition.record_mem ho)
  | loop condition body =>
      rw [Stmt.after_eq_self _ hformed rfl]
      exact List.mem_append_left _ (condition.record_mem ho)
  | giveBack line value =>
      cases value with
      | none => cases ho
      | some e =>
          have ho' : o ∈ e.occurrences := by
            simpa [Stmt.ownOccurrences, Expr.occurrencesOption] using ho
          exact e.record_mem ho'
  | classDef name superclass methods =>
      cases superclass with
      | none => cases ho
      | some ref =>
          cases List.mem_singleton.mp ho
          exact List.mem_cons_self

/-- What is found for one of some statements is found for them all. -/
theorem Stmt.records_subset {ss before : List Stmt} {s : Stmt} (h : before ++ [s] <+: ss) :
    s.records (Stmt.afterAll Γ before) ⊆ Stmt.recordsAll Γ ss := by
  obtain ⟨rest, rfl⟩ := h
  induction before generalizing Γ with
  | nil => exact List.subset_append_left _ _
  | cons t before ih => exact List.subset_append_of_subset_right _ ih

theorem FunctionDecl.records_subset {ds : List FunctionDecl} {d : FunctionDecl} (h : d ∈ ds) :
    d.records Γ ⊆ FunctionDecl.recordsAll Γ ds := by
  induction ds with
  | nil => cases h
  | cons d' ds ih =>
      rcases List.mem_cons.mp h with rfl | hlater
      · exact List.subset_append_left _ _
      · exact List.subset_append_of_subset_right _ (ih hlater)

end Own

section Program

variable {program : List Stmt} {path : List Enclosure} {s : Stmt} {o : Occurrence}

theorem FunctionDecl.Formed.of_mem {d : FunctionDecl} (h : d.Formed) (hs : s ∈ d.body) :
    s.Formed := by
  cases d with
  | mk name parameters body => exact Stmt.formed_of_mem h.2.2 hs

theorem FunctionDecl.formed_of_mem {ds : List FunctionDecl} {d : FunctionDecl}
    (h : FunctionDecl.FormedAll ds) (hd : d ∈ ds) : d.Formed := by
  induction ds with
  | nil => cases hd
  | cons d' ds ih =>
      rcases List.mem_cons.mp hd with rfl | hlater
      · exact h.1
      · exact ih h.2 hlater

/-- The statements of a well-formed program are well formed, wherever they stand. -/
theorem Enclosed.formed (hprogram : Stmt.FormedAll program) (h : Enclosed program path s) :
    s.Formed := by
  induction h with
  | topLevel hs => exact Stmt.formed_of_mem hprogram hs
  | block _ hbefore ih => exact Stmt.formed_of_mem ih (mem_of_begun hbefore)
  | ifThen _ ih | loop _ ih => exact ih.2
  | ifTrue _ ih => exact ih.1.2
  | ifFalse _ ih => exact ih.2.2
  | function _ hbefore ih => exact FunctionDecl.Formed.of_mem ih (mem_of_begun hbefore)
  | method _ hd hbefore ih =>
      exact (FunctionDecl.formed_of_mem ih.2 hd).of_mem (mem_of_begun hbefore)

/-- What is found for the statements of a body is found for the function. -/
theorem exists_scopes_of_body {Γ : Scopes} {d : FunctionDecl} {before : List Stmt}
    (enclosure : Enclosure) (hfollow : Γ.Follow path) (hbefore : before ++ [s] <+: d.body)
    (hdeclared : enclosure.declared =
      d.parameters.map Name.text ++ (before ++ [s]).flatMap Stmt.declaredNames) :
    ∃ Γ', (s.after Γ').Follow (enclosure :: path) ∧ s.records Γ' ⊆ d.records Γ := by
  cases d with
  | mk name parameters body =>
      refine ⟨Stmt.afterAll (Scopes.introducingAll ([] :: Γ) parameters) before, ?_,
        Stmt.records_subset hbefore⟩
      rw [Scopes.introducingAll_eq, Stmt.afterAll_eq, s.after_eq, ← Scopes.introducingNames_append,
        ← Scopes.introducingNames_append]
      refine hfollow.inner (hdeclared.trans ?_)
      simp

/-- What is found for the methods of a class is found in the scopes of the class. -/
theorem exists_scopes_of_class {Γ : Scopes} {name : Name} {superclass : Option Reference}
    {methods : List FunctionDecl}
    (hfollow : ((Stmt.classDef name superclass methods).after Γ).Follow path) :
    ∃ Γ', Γ'.Follow (Enclosure.ofClass superclass ++ path) ∧ ∀ d ∈ methods,
      d.records Γ' ⊆ (Stmt.classDef name superclass methods).records Γ := by
  have hreceiver (x : String) : Scopes.receiverScope.declares x = true ↔ x ∈ [receiverWord] := by
    simp [Scopes.receiverScope, Scope.declares]
  have hsuperclass (x : String) :
      Scopes.superclassScope.declares x = true ↔ x ∈ [superclassWord] := by
    simp [Scopes.superclassScope, Scope.declares]
  cases superclass with
  | none => exact ⟨_, .cons hreceiver hfollow, fun _ hd => FunctionDecl.records_subset hd⟩
  | some ref =>
      refine ⟨_, .cons hreceiver (.cons hsuperclass hfollow), fun _ hd => ?_⟩
      exact List.subset_cons_of_subset _ (FunctionDecl.records_subset hd)

/-- What is found for a statement of a program is found in scopes that follow those it stands in. -/
theorem Enclosed.exists_scopes (hprogram : Stmt.FormedAll program) (h : Enclosed program path s) :
    ∃ Γ, (s.after Γ).Follow path ∧ s.records Γ ⊆ Stmt.recordsAll [] program := by
  induction h with
  | @topLevel s hs =>
      obtain ⟨before, hbefore⟩ := exists_begun hs
      refine ⟨Stmt.afterAll [] before, ?_, Stmt.records_subset hbefore⟩
      rw [Stmt.afterAll_eq, s.after_eq, Scopes.introducingNames_eq_nil.mpr
        (Scopes.introducingNames_eq_nil.mpr rfl)]
      exact .nil
  | @block path body before s _ hbefore ih =>
      obtain ⟨Γ, hfollow, hsubset⟩ := ih
      refine ⟨Stmt.afterAll ([] :: Γ) before, ?_,
        List.Subset.trans (Stmt.records_subset hbefore) hsubset⟩
      rw [Stmt.afterAll_eq, s.after_eq, ← Scopes.introducingNames_append]
      exact hfollow.inner (by simp [Enclosure.declared])
  | ifThen _ ih | loop _ ih =>
      obtain ⟨Γ, hfollow, hsubset⟩ := ih
      exact ⟨Γ, hfollow, (List.append_subset.mp hsubset).2⟩
  | @ifTrue path condition s elseBranch h ih =>
      obtain ⟨Γ, hfollow, hsubset⟩ := ih
      obtain ⟨_, helse, helseFormed⟩ := h.formed hprogram
      rw [Stmt.after, elseBranch.after_eq_self helseFormed helse] at hfollow
      exact ⟨Γ, hfollow, (List.append_subset.mp (List.append_subset.mp hsubset).2).1⟩
  | @ifFalse path condition thenBranch s _ ih =>
      obtain ⟨Γ, hfollow, hsubset⟩ := ih
      exact ⟨thenBranch.after Γ, hfollow,
        (List.append_subset.mp (List.append_subset.mp hsubset).2).2⟩
  | @function path d before s _ hbefore ih =>
      obtain ⟨Γ, hfollow, hsubset⟩ := ih
      obtain ⟨Γ', hfollow', hsubset'⟩ := exists_scopes_of_body (.function d _) hfollow hbefore rfl
      exact ⟨Γ', hfollow', List.Subset.trans hsubset' hsubset⟩
  | @method path name superclass methods d before s _ hd hbefore ih =>
      obtain ⟨Γ, hfollow, hsubset⟩ := ih
      obtain ⟨Γ₁, hclass, hmethods⟩ := exists_scopes_of_class hfollow
      obtain ⟨Γ₂, hbody, hsubset'⟩ := exists_scopes_of_body (.method d _) hclass hbefore rfl
      exact ⟨Γ₂, hbody, List.Subset.trans hsubset' (List.Subset.trans (hmethods _ hd) hsubset)⟩

end Program

section Source

variable {program : List Stmt} {distances : Distances}

/-- What is known of a reference of an accepted program is what is found for it in some scopes that
follow those it stands in. -/
theorem exists_follow_of_resolve {i j : NodeId} {path : List Enclosure} {s : Stmt} {o : Occurrence}
    (hprepared : Prepared i j program) (hresolve : resolve program = .ok distances)
    (hs : Enclosed program path s) (ho : o ∈ s.ownOccurrences) :
    ∃ Γ : Scopes, Γ.Follow path ∧ distances[o.id]? = Γ.locate? o.word := by
  obtain ⟨_, rfl⟩ := resolve_eq_ok.mp hresolve
  obtain ⟨Γ, hfollow, hsubset⟩ := hs.exists_scopes hprepared.formed
  have hrecord := hsubset (Stmt.record_mem (hs.formed hprepared.formed) ho)
  exact ⟨_, hfollow, getElem?_recordAll_of_mem hrecord (hprepared.numbers []).nodup
    fun _ _ => Std.TreeMap.getElem?_emptyc⟩

/-- Only references of a program are given distances. -/
theorem exists_occurrence_of_resolve (hresolve : resolve program = .ok distances) {id : NodeId}
    (hid : id ∈ distances) : ∃ o ∈ Stmt.occurrencesAll program, o.id = id := by
  obtain ⟨_, rfl⟩ := resolve_eq_ok.mp hresolve
  have hmem : id ∈ idsOf (Stmt.recordsAll [] program) := by
    by_contra hnot
    have hnone := getElem?_recordAll_of_notMem (D := ∅) hnot
    rw [Std.TreeMap.mem_iff_isSome_getElem?, hnone, Std.TreeMap.getElem?_emptyc] at hid
    cases hid
  exact List.mem_map.mp ((Stmt.sameIdsAll [] program).mem_iff.mp hmem)

/-- Distances are lexical. In an accepted program, the distance of a reference is that of the
nearest scope around it in which a declaration of its name has begun before it, and it has none if
there is no such scope; every reference stands in scopes like this, and nothing else has a
distance. -/
theorem distances_lexical {source : String} {base : NodeId}
    (hread : (readProgram (scan source).tokens base).result = .ok program)
    (hresolve : resolve program = .ok distances) :
    (∀ path s o, Enclosed program path s → o ∈ s.ownOccurrences →
      (∀ d, distances[o.id]? = some d ↔
        IsLeast {i : Nat | ∃ scope, path[i]? = some scope ∧ o.word ∈ scope.declared} d) ∧
      (distances[o.id]? = none ↔ ∀ scope ∈ path, o.word ∉ scope.declared)) ∧
    (∀ o ∈ Stmt.occurrencesAll program,
      ∃ path s, Enclosed program path s ∧ o ∈ s.ownOccurrences) ∧
    ∀ id ∈ distances, ∃ o ∈ Stmt.occurrencesAll program, o.id = id := by
  refine ⟨fun path s o hs ho => ?_, fun o ho => Enclosed.has_of_mem_occurrences ho,
    fun id hid => exists_occurrence_of_resolve hresolve hid⟩
  obtain ⟨Γ, hfollow, hknown⟩ :=
    exists_follow_of_resolve (prepared_of_readProgram hread) hresolve hs ho
  rw [hknown]
  exact ⟨fun d => hfollow.locate?_eq_some_iff, hfollow.locate?_eq_none_iff⟩

/-- For example, a name that is printed before the declaration that shadows it, and in a block after
it. -/
theorem distances_lexical_of_shadowing : ∃ distances : Distances,
    distances[0]? = none ∧ distances[1]? = some 1 ∧
      IsLeast {i : Nat | ∃ scope, [Enclosure.block [.print (.name ⟨1, ⟨"x", 1⟩⟩)],
        .block [.print (.name ⟨0, ⟨"x", 1⟩⟩), .var ⟨"x", 1⟩ none,
          .block [.print (.name ⟨1, ⟨"x", 1⟩⟩)]]][i]? = some scope ∧ "x" ∈ scope.declared} 1 := by
  let first : Stmt := .print (.name ⟨0, ⟨"x", 1⟩⟩)
  let second : Stmt := .print (.name ⟨1, ⟨"x", 1⟩⟩)
  let body := [first, .var ⟨"x", 1⟩ none, .block [second]]
  have hread : (readProgram (scan "{ print x; var x; { print x; } }").tokens 0).result =
      .ok [.block body] := by cbv
  have hresolve : resolve [.block body] = .ok ((∅ : Distances).insert 1 1) := by cbv
  obtain ⟨hlexical, _⟩ := distances_lexical hread hresolve
  have hblock : Enclosed [.block body] [] (.block body) := .topLevel List.mem_cons_self
  have hinner : Enclosed [.block body] [.block body] (.block [second]) :=
    hblock.block (show [first, .var ⟨"x", 1⟩ none] ++ [.block [second]] <+: body from
      List.prefix_refl body)
  have hfirst := (hlexical [.block [first]] first ⟨0, .read, ⟨"x", 1⟩⟩
    (hblock.block (show [] ++ [first] <+: body from ⟨_, rfl⟩)) List.mem_cons_self).2
  have hsecond := (hlexical [.block [second], .block body] second ⟨1, .read, ⟨"x", 1⟩⟩
    (hinner.block (show [] ++ [second] <+: [second] from List.prefix_refl _))
    List.mem_cons_self).1 1
  refine ⟨_, hfirst.mpr (by decide), ?_, hsecond.mp ?_⟩ <;> cbv

end Source

end ScopedScript
