import ScopedScript.Proofs.Eval.Chronicle

/-!
# Where code stands

What is known of code in given scopes, and of the place where it is executed, is known of its parts.
In particular, code in the body of a method is only ever executed in scopes that lie inside the one
that was made for an object of the method.
-/

namespace ScopedScript

section Words

variable {Γ : Scopes} {x w : String}

/-- Where a word is declared that scopes declare of their own accord does not depend on the ordinary
names that are declared. -/
theorem Scopes.locate?_declaring_of_ne (h : w ≠ x) :
    (Γ.declaring x).locate? w = Γ.locate? w := by
  cases Γ with
  | nil => rfl
  | cons scope Γ =>
      change Scopes.locate? (((x, false) :: scope) :: Γ) w = _
      simp only [locate?_cons, Scope.declares_cons, h, decide_false, Bool.false_or]

theorem ne_of_ordinary (hx : Ordinary x) (hw : ¬Ordinary w) : w ≠ x := fun h => hw (h ▸ hx)

theorem Scopes.locate?_introducingAll {names : List Name} (hw : ¬Ordinary w)
    (hnames : ∀ p ∈ names, Ordinary p.text) :
    (Γ.introducingAll names).locate? w = Γ.locate? w := by
  induction names generalizing Γ with
  | nil => rfl
  | cons name names ih =>
      obtain ⟨hname, hrest⟩ := List.forall_mem_cons.mp hnames
      exact (ih hrest).trans (locate?_introducing_of_ne (ne_of_ordinary hname hw))

theorem Stmt.locate?_after (s : Stmt) (hformed : s.Formed) (hw : ¬Ordinary w) :
    (s.after Γ).locate? w = Γ.locate? w := by
  cases hdeclares : s.declares with
  | false => rw [s.after_eq_self hformed hdeclares]
  | true =>
      cases s with
      | var name initial => exact Scopes.locate?_introducing_of_ne (ne_of_ordinary hformed hw)
      | function d =>
          cases d with
          | mk name parameters body =>
              exact Scopes.locate?_introducing_of_ne (ne_of_ordinary hformed.1 hw)
      | classDef name superclass methods =>
          exact Scopes.locate?_introducing_of_ne (ne_of_ordinary hformed.1 hw)
      | _ => cases hdeclares

theorem Scopes.locate?_block : Scopes.locate? ([] :: Γ) w = (Γ.locate? w).map (· + 1) := by
  rw [locate?_cons]
  exact if_neg Bool.false_ne_true

end Words

namespace Stands

variable {h h' : List Moment} {s s' : State} {setting : Setting} {Γ Γ' : Scopes} {e : EnvId}
variable {os os' : List Occurrence}

theorem of_subset (hs : Stands h setting Γ os e) (hos : os' ⊆ os) : Stands h setting Γ os' e := by
  intro hkind
  obtain ⟨method, f, o, d, hbinds, hactivation, hdirect, hlocate⟩ := hs hkind
  exact ⟨method, f, o, d, hbinds, hactivation, List.Subset.trans hos hdirect, hlocate⟩

theorem and (hs : Stands h setting Γ (os ++ os') e) :
    Stands h setting Γ os e ∧ Stands h setting Γ os' e :=
  ⟨hs.of_subset (List.subset_append_left _ _), hs.of_subset (List.subset_append_right _ _)⟩

/-- Later in a run in the same scope, the same methods are being executed. -/
theorem later (hs : Stands h setting Γ os s.current) (hsub : h ⊆ h') (hgrows : s.Grows s') :
    Stands h' setting Γ os s'.current := by
  rw [hgrows.current_eq]
  exact hs.mono hsub

/-- What is executed at a place depends on where the words are declared that scopes declare of their
own accord. -/
theorem of_locate? (hs : Stands h setting Γ os e)
    (hwords : ∀ w, ¬Ordinary w → Γ'.locate? w = Γ.locate? w) : Stands h setting Γ' os e := by
  intro hkind
  obtain ⟨method, f, o, d, hbinds, hactivation, hdirect, hreceiver, hsubclass⟩ := hs hkind
  refine ⟨method, f, o, d, hbinds, hactivation, hdirect, ?_, fun hkind => ?_⟩
  · rw [hwords _ not_ordinary_receiverWord, hreceiver]
  · rw [hwords _ not_ordinary_superclassWord]
    exact hsubclass hkind

/-- Inside another scope, the words are declared one scope further out. -/
theorem block (hs : Stands h setting Γ os e) {inner : EnvId}
    (hinner : ∀ f d, Activation h f e d → Activation h f inner (d + 1)) :
    Stands h setting ([] :: Γ) os inner := by
  intro hkind
  obtain ⟨method, f, o, d, hbinds, hactivation, hdirect, hreceiver, hsubclass⟩ := hs hkind
  refine ⟨method, f, o, d + 1, hbinds, hinner f d hactivation, hdirect, ?_, fun hkind => ?_⟩
  · rw [Scopes.locate?_block, hreceiver]
    rfl
  · obtain ⟨hsuper, hclass⟩ := hsubclass hkind
    refine ⟨?_, hclass⟩
    rw [Scopes.locate?_block, hsuper]
    rfl

theorem outside (hkind : setting.classKind = .outside) : Stands h setting Γ os e :=
  fun hnot => (hnot hkind).elim

end Stands

namespace CodeIn

variable {n : NodeId} {D : Distances} {P P' : Prop} {rs rs' : List Record}
variable {os os' : List Occurrence}

theorem and (hcode : CodeIn n D (P ∧ P') (rs ++ rs') (os ++ os')) :
    CodeIn n D P rs os ∧ CodeIn n D P' rs' os' := by
  obtain ⟨hfits, hfits'⟩ := hcode.fits.and
  obtain ⟨hplain, hplain'⟩ := List.forall_mem_append.mp hcode.plain
  exact ⟨⟨hfits, hplain⟩, ⟨hfits', hplain'⟩⟩

/-- What is written first may be resolved last. -/
theorem and_swap (hcode : CodeIn n D (P' ∧ P) (rs' ++ rs) (os ++ os')) :
    CodeIn n D P rs os ∧ CodeIn n D P' rs' os' := by
  obtain ⟨hfits', hfits⟩ := hcode.fits.and
  obtain ⟨hplain, hplain'⟩ := List.forall_mem_append.mp hcode.plain
  exact ⟨⟨hfits, hplain⟩, ⟨hfits', hplain'⟩⟩

theorem later {s s' : State} (hcode : CodeIn n s.distances P rs os) (hgrows : s.Grows s') :
    CodeIn n s'.distances P rs os := by
  rwa [hgrows.distances_eq]

theorem branches {setting : Setting} {Γ : Scopes} {condition : Expr} {thenBranch elseBranch : Stmt}
    (hformed : (Stmt.ifElse condition thenBranch elseBranch).Formed)
    (hcode : CodeIn n D ((Stmt.ifElse condition thenBranch elseBranch).Obeys setting Γ)
      ((Stmt.ifElse condition thenBranch elseBranch).records Γ)
      (Stmt.ifElse condition thenBranch elseBranch).occurrences) :
    CodeIn n D (condition.Obeys setting Γ) (condition.records Γ) condition.occurrences ∧
      CodeIn n D (thenBranch.Obeys setting Γ) (thenBranch.records Γ) thenBranch.occurrences ∧
      CodeIn n D (elseBranch.Obeys setting Γ) (elseBranch.records Γ) elseBranch.occurrences := by
  obtain ⟨hcondition, hthen, helse⟩ := hcode.fits.branches hformed
  obtain ⟨hplain, hplainElse⟩ := List.forall_mem_append.mp hcode.plain
  obtain ⟨hplainCondition, hplainThen⟩ := List.forall_mem_append.mp hplain
  exact ⟨⟨hcondition, hplainCondition⟩, ⟨hthen, hplainThen⟩, ⟨helse, hplainElse⟩⟩

end CodeIn

/-- What is known of the declarations of methods is known of each of them. -/
theorem FunctionDecl.readyIn_of_mem {n : NodeId} {D : Distances} {setting : Setting} {Γ : Scopes}
    {d : FunctionDecl} {ds : List FunctionDecl} (hd : d ∈ ds)
    (hformed : FunctionDecl.FormedAll ds)
    (hcode : CodeIn n D (FunctionDecl.ObeysAll setting Γ ds) (FunctionDecl.recordsAll Γ ds)
      (FunctionDecl.occurrencesAll ds)) :
    d.ReadyIn n D { setting with body := Resolve.methodKind d.name } Γ := by
  induction ds with
  | nil => cases hd
  | cons d' ds ih =>
      obtain ⟨hformedFirst, hformedRest⟩ := hformed
      obtain ⟨hfirst, hrest⟩ := hcode.and
      rcases List.mem_cons.mp hd with rfl | hlater
      · exact ⟨hformedFirst, hfirst⟩
      · exact ih hlater hformedRest hrest

/-- The methods of a class stand inside the scope that declares `this`, with the one that declares
`super` just outside it if there is one. -/
theorem CodeIn.exists_readyIn {n : NodeId} {D : Distances} {setting : Setting} {Γ : Scopes}
    {name : Name} {ref : Option Reference} {ds : List FunctionDecl}
    (hcode : CodeIn n D ((Stmt.classDef name ref ds).Obeys setting Γ)
      ((Stmt.classDef name ref ds).records Γ) (Stmt.classDef name ref ds).occurrences)
    (hformed : (Stmt.classDef name ref ds).Formed) :
    ∀ d ∈ ds, ∃ setting Γ, d.ReadyIn n D setting (Scopes.receiverScope :: Γ) ∧
      (setting.classKind = .subclass → ref.isSome = true ∧
        Scopes.locate? Γ superclassWord = some 0) := by
  intro d hd
  obtain ⟨hfits, hplain⟩ := hcode
  have hoccurrences := (List.forall_mem_append.mp hplain).2
  cases ref with
  | none =>
      obtain ⟨⟨_, hobeys⟩, hrecorded⟩ := hfits
      exact ⟨_, _, FunctionDecl.readyIn_of_mem hd hformed.2 ⟨⟨hobeys, hrecorded⟩, hoccurrences⟩,
        fun hkind => nomatch hkind⟩
  | some ref =>
      obtain ⟨⟨_, _, _, hobeys⟩, hrecorded⟩ := hfits
      have hrecorded := (Recorded.cons hrecorded).2
      refine ⟨_, _, FunctionDecl.readyIn_of_mem hd hformed.2 ⟨⟨hobeys, hrecorded⟩, hoccurrences⟩,
        fun _ => ⟨rfl, ?_⟩⟩
      rw [Scopes.locate?_cons, if_pos (by decide)]

namespace Chronicle

variable {n : NodeId} {h : List Moment} {s : State} {f : Function}

/-- The body of a function on record is ready to be executed in the scope of a call. -/
theorem exists_readyIn (hs : Chronicle n h s) (hf : f.From h) :
    s.store.HasEnv f.closure ∧ ∃ setting Γ, f.declaration.ReadyIn n s.distances setting Γ ∧
      ∀ h' scope, h ⊆ h' → Happened h' (.enters f scope) →
        Stands h' setting ([] :: Γ) (FunctionDecl.direct f.declaration) scope := by
  rcases hf with hdeclares | ⟨method, o, hbinds⟩
  · have hdeclared := hs.declared hdeclares
    obtain ⟨setting, Γ, hstands, hready⟩ := hdeclared.known
    refine ⟨hdeclared.hasEnv, setting, Γ, hready, fun h' scope hsub henters => ?_⟩
    exact (hstands.mono hsub).block
      fun _ _ hactivation => .function hactivation henters
  · have hbound := hs.boundTo hbinds
    obtain ⟨d, parent, c, hderives, hmethod⟩ := hbound.method
    obtain ⟨setting, Γ, hready, hsuper⟩ := ((hs.derived hderives).methods method hmethod).known
    have hdeclaration : f.declaration = method.declaration := by rw [hbound.made]
    rw [hdeclaration]
    refine ⟨Store.hasEnv_of_enclosing? hbound.enclosing, setting, _, hready,
      fun h' scope hsub henters _ => ?_⟩
    refine ⟨method, f, o, 1, hbinds.mono hsub, .call henters, List.Subset.refl _, rfl,
      fun hkind => ?_⟩
    obtain ⟨hparent, hlocate⟩ := hsuper hkind
    obtain ⟨superclass, rfl⟩ := Option.isSome_iff_exists.mp hparent
    refine ⟨?_, d, c, superclass, hderives.mono hsub, hmethod⟩
    rw [Scopes.locate?_block, Scopes.locate?_cons, if_neg (by decide), hlocate]
    rfl

/-- The only functions that give the object they are for are those that are for one. -/
theorem exists_binds (hs : Chronicle n h s) (hf : f.From h)
    (hinitializer : f.isInitializer = true) :
    ∃ method o, Happened h (.binds method f o) := by
  rcases hf with hdeclares | hbinds
  · rw [(hs.declared hdeclares).not_initializer] at hinitializer
    cases hinitializer
  · exact hbinds

end Chronicle

end ScopedScript
