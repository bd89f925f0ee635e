import ScopedScript.Proofs.Eval.Growth
import ScopedScript.Proofs.Scope.Nesting
import ScopedScript.Proofs.Scope.Recorded

/-!
# What holds while programs run

The chain of a scope of the store matches the scopes that enclose a place of a program: it has as
many links up to the global scope, and binds all names whose declaration is complete. In a sound
state, every function that can be reached has a closure that matches the scopes around its
declaration, where its body obeys the rules of scoping and what is found for its references is
known. This stays so while the store grows and more references become known.
-/

namespace ScopedScript

/-- A later state, as far as code that was read earlier depends on it: the references whose numbers
lie below `n` are known as before. -/
structure State.Precedes (n : NodeId) (s s' : State) : Prop where
  globals_eq : s'.globals = s.globals
  store_extends : s.store.Extends s'.store
  distances_agree : s.distances.Agree n s'.distances

theorem State.Precedes.of_grows {n : NodeId} {s s' : State} (h : s.Grows s') :
    s.Precedes n s' where
  globals_eq := h.globals_eq
  store_extends := h.store_extends
  distances_agree := by
    rw [h.distances_eq]
    exact .refl _ _

theorem State.Precedes.of_store {n : NodeId} {s : State} {st : Store} (h : s.store.Extends st) :
    s.Precedes n { s with store := st } :=
  ⟨rfl, h, .refl _ _⟩

/-- The chain of a scope of the store matches the scopes that enclose a place. -/
def State.Matches (s : State) : EnvId → Scopes → Prop
  | e, [] => e = s.globals
  | e, scope :: Γ => (∀ x, scope.lookup x = some true → s.store.Binds e x) ∧
      ∃ outer, s.store.enclosing? e = some outer ∧ s.Matches outer Γ

/-- A rule is kept, and what is found for some references is known. -/
structure Fits (n : NodeId) (distances : Distances) (rule : Prop) (rs : List Record) : Prop where
  keeps : rule
  recorded : Recorded n distances rs

/-- What is known of a function declaration in given scopes. -/
structure FunctionDecl.KnownIn (n : NodeId) (s : State) (setting : Setting) (Γ : Scopes)
    (d : FunctionDecl) : Prop where
  stable : Γ.Stable
  setting_fits : setting.FitsIn Γ
  body_ne : setting.body ≠ .topLevel
  formed : d.Formed
  fits : Fits n s.distances (d.Obeys setting Γ) (d.records Γ)

/-- The closure of a function matches the scopes in which it is declared. That of an initializer
binds the object it is for. -/
def Function.Sound (n : NodeId) (s : State) (f : Function) : Prop :=
  (∃ setting Γ, s.Matches f.closure Γ ∧ f.declaration.KnownIn n s setting Γ) ∧
    (f.isInitializer = true → s.store.Binds f.closure receiverWord)

/-- The closure of a method of a class matches the scopes around the one that declares `this`. -/
def Function.SoundMethod (n : NodeId) (s : State) (f : Function) : Prop :=
  ∃ setting Γ, s.Matches f.closure Γ ∧
    f.declaration.KnownIn n s setting (Scopes.receiverScope :: Γ)

/-- The methods of a class are sound, also the inherited ones. -/
def Class.Sound (n : NodeId) (s : State) (c : Class) : Prop :=
  ∀ layer ∈ c.own :: c.inherited, ∀ x f, layer.methods.get? x = some f → f.SoundMethod n s

/-- The functions that can be reached through a value are sound. -/
def Value.Sound (n : NodeId) (s : State) : Value → Prop
  | .function f => f.Sound n s
  | .cls c => c.Sound n s
  | .object o => o.cls.Sound n s
  | .nil | .bool _ | .number _ | .string _ | .native _ => True

/-- All values that a state holds are sound, and so is all that its host ever answers. -/
structure State.Sound (n : NodeId) (s : State) : Prop where
  binding : ∀ {e : EnvId} {x : String} {v : Value}, s.store.binding? e x = some v → v.Sound n s
  field : ∀ {o : ObjectId} {x : String} {v : Value}, s.store.field? o x = some v → v.Sound n s
  answer : ∀ {f : Native} {calls : Nat} {arguments : List Value} {v : Value},
    s.host.answer f calls arguments = .ok v → ∀ n' s', v.Sound n' s'

/-- What can be said of the names that a fault is about: no name that means a local variable is
missing where it is looked up, and a name that is undefined is one that the global scope does not
bind. -/
def Halt.Lawful (s : State) : Halt → Prop
  | .runtime (.scopeMismatch _ _) _ | .runtime (.unboundLocal _) _ | .runtime .topLevelReturn _ =>
    False
  | .runtime (.undefinedVariable x) _ => ¬s.store.Binds s.globals x
  | _ => True

namespace Fits

variable {n n' : NodeId} {D D' : Distances} {P P' : Prop} {rs rs' : List Record}

theorem and (h : Fits n D (P ∧ P') (rs ++ rs')) : Fits n D P rs ∧ Fits n D P' rs' := by
  obtain ⟨⟨hP, hP'⟩, hrecorded⟩ := h
  obtain ⟨hrs, hrs'⟩ := Recorded.append hrecorded
  exact ⟨⟨hP, hrs⟩, ⟨hP', hrs'⟩⟩

theorem mono (h : Fits n D P rs) (hle : n ≤ n') (hagree : D.Agree n D') : Fits n' D' P rs :=
  ⟨h.keeps, h.recorded.mono hle hagree⟩

/-- A branch declares nothing in the scopes around it, so what is known of a statement with two
branches is known of both of them in the same scopes. -/
theorem branches {setting : Setting} {Γ : Scopes} {condition : Expr} {thenBranch elseBranch : Stmt}
    (hformed : (Stmt.ifElse condition thenBranch elseBranch).Formed)
    (h : Fits n D ((Stmt.ifElse condition thenBranch elseBranch).Obeys setting Γ)
      ((Stmt.ifElse condition thenBranch elseBranch).records Γ)) :
    Fits n D (condition.Obeys setting Γ) (condition.records Γ) ∧
      Fits n D (thenBranch.Obeys setting Γ) (thenBranch.records Γ) ∧
      Fits n D (elseBranch.Obeys setting Γ) (elseBranch.records Γ) := by
  obtain ⟨hcondition, hbranches⟩ := Fits.and h
  obtain ⟨hthen, helse⟩ := Fits.and hbranches
  obtain ⟨⟨hdeclares, hthenFormed⟩, _⟩ := hformed
  rw [thenBranch.after_eq_self hthenFormed hdeclares] at helse
  exact ⟨hcondition, hthen, helse⟩

end Fits

section Mono

variable {n n' : NodeId} {s s' : State} {e : EnvId} {Γ : Scopes} {setting : Setting} {f : Function}

theorem State.Matches.mono (h : s.Matches e Γ) (hs : s.Precedes n s') : s'.Matches e Γ := by
  induction Γ generalizing e with
  | nil => exact Eq.trans h hs.globals_eq.symm
  | cons scope Γ ih =>
      obtain ⟨hbinds, outer, houter, hmatches⟩ := h
      have he : s.store.HasEnv e := Store.hasEnv_of_enclosing? houter
      exact ⟨fun x hx => hs.store_extends.binds (hbinds x hx), outer,
        (hs.store_extends.enclosing he).trans houter, ih hmatches⟩

theorem FunctionDecl.KnownIn.mono {d : FunctionDecl} (h : d.KnownIn n s setting Γ) (hle : n ≤ n')
    (hs : s.Precedes n s') : d.KnownIn n' s' setting Γ where
  stable := h.stable
  setting_fits := h.setting_fits
  body_ne := h.body_ne
  formed := h.formed
  fits := h.fits.mono hle hs.distances_agree

theorem Function.Sound.mono (h : f.Sound n s) (hle : n ≤ n') (hs : s.Precedes n s') :
    f.Sound n' s' := by
  obtain ⟨⟨setting, Γ, hmatches, hknown⟩, hinitializer⟩ := h
  exact ⟨⟨setting, Γ, hmatches.mono hs, hknown.mono hle hs⟩,
    fun hf => hs.store_extends.binds (hinitializer hf)⟩

theorem Function.SoundMethod.mono (h : f.SoundMethod n s) (hle : n ≤ n') (hs : s.Precedes n s') :
    f.SoundMethod n' s' := by
  obtain ⟨setting, Γ, hmatches, hknown⟩ := h
  exact ⟨setting, Γ, hmatches.mono hs, hknown.mono hle hs⟩

theorem Class.Sound.mono {c : Class} (h : c.Sound n s) (hle : n ≤ n') (hs : s.Precedes n s') :
    c.Sound n' s' := fun layer hlayer x f hf => (h layer hlayer x f hf).mono hle hs

theorem Value.Sound.mono {v : Value} (h : v.Sound n s) (hle : n ≤ n') (hs : s.Precedes n s') :
    v.Sound n' s' := by
  cases v with
  | function f => exact Function.Sound.mono h hle hs
  | cls c | object o => exact Class.Sound.mono h hle hs
  | _ => trivial

/-- A later state is sound if it holds only sound values besides those that were there before. -/
theorem State.Sound.mono (h : s.Sound n) (hle : n ≤ n') (hs : s.Precedes n s')
    (hhost : s'.host = s.host)
    (hbinding : ∀ e x v, s'.store.binding? e x = some v →
      s.store.binding? e x = some v ∨ v.Sound n' s')
    (hfield : ∀ o x v, s'.store.field? o x = some v →
      s.store.field? o x = some v ∨ v.Sound n' s') : s'.Sound n' where
  binding hv := by
    rcases hbinding _ _ _ hv with hold | hsound
    · exact (h.binding hold).mono hle hs
    · exact hsound
  field hv := by
    rcases hfield _ _ _ hv with hold | hsound
    · exact (h.field hold).mono hle hs
    · exact hsound
  answer hv := by
    rw [hhost] at hv
    exact h.answer hv

end Mono

namespace State.Matches

variable {s : State} {e target : EnvId} {Γ : Scopes} {x : String} {v : Value} {d : Nat}
variable {scope : Scope}

/-- The scope at a distance up the chain binds what the scope at that distance declares. -/
theorem exists_ancestor? (h : s.Matches e Γ) (hscope : Γ[d]? = some scope) :
    ∃ target, s.store.ancestor? e d = some target ∧
      ∀ x, scope.lookup x = some true → s.store.Binds target x := by
  induction Γ generalizing e d with
  | nil => cases hscope
  | cons inner Γ ih =>
      obtain ⟨hbinds, outer, houter, hmatches⟩ := h
      cases d with
      | zero =>
          cases hscope
          exact ⟨e, rfl, hbinds⟩
      | succ d =>
          obtain ⟨target, htarget, hbinds⟩ := ih hmatches hscope
          refine ⟨target, ?_, hbinds⟩
          unfold Store.ancestor?
          rw [houter]
          exact htarget

theorem declaring (h : s.Matches e Γ) : s.Matches e (Γ.declaring x) := by
  cases Γ with
  | nil => exact h
  | cons scope Γ =>
      obtain ⟨hbinds, hlink⟩ := h
      refine ⟨?_, hlink⟩
      intro y hy
      rw [Scope.lookup_cons] at hy
      by_cases hyx : y = x
      · rw [if_pos hyx] at hy
        cases hy
      · rw [if_neg hyx] at hy
        exact hbinds y hy

theorem defining (h : s.Matches e Γ) (hx : s.store.Binds e x) : s.Matches e (Γ.defining x) := by
  cases Γ with
  | nil => exact h
  | cons scope Γ =>
      obtain ⟨hbinds, hlink⟩ := h
      refine ⟨?_, hlink⟩
      intro y hy
      rw [Scope.lookup_cons] at hy
      by_cases hyx : y = x
      · rwa [hyx]
      · rw [if_neg hyx] at hy
        exact hbinds y hy

/-- A name that is bound in a scope of the store is declared in the scope that it matches. -/
theorem define (h : s.Matches e Γ) :
    State.Matches { s with store := s.store.define e x v } e (Γ.introducing x) := by
  cases Γ with
  | nil => exact h
  | cons scope Γ =>
      have hlater : s.Precedes 0 { s with store := s.store.define e x v } := .of_store .define
      obtain ⟨_, outer, houter, _⟩ := id h
      have hbinds : (s.store.define e x v).Binds e x :=
        Store.binds_iff.mpr ⟨v, Store.binding?_define_self (Store.hasEnv_of_enclosing? houter)⟩
      exact (h.declaring.mono hlater).defining hbinds

/-- A new scope of the store matches one that declares nothing yet. -/
theorem addEnv (h : s.Matches e Γ) :
    State.Matches { s with store := s.store.addEnv (some e) } s.store.nextEnv ([] :: Γ) := by
  have hlater : s.Precedes 0 { s with store := s.store.addEnv (some e) } := .of_store .addEnv
  exact ⟨fun _ hx => (nomatch hx), e, Store.enclosing?_addEnv_nextEnv, h.mono hlater⟩

/-- A new scope of the store that binds one name matches one that declares it. -/
theorem addEnv_define (h : s.Matches e Γ) :
    State.Matches { s with store := (s.store.addEnv (some e)).define s.store.nextEnv x v }
      s.store.nextEnv ([(x, true)] :: Γ) := by
  have hlater : s.Precedes 0
      { s with store := (s.store.addEnv (some e)).define s.store.nextEnv x v } :=
    .of_store (Store.Extends.addEnv.trans .define)
  refine ⟨?_, e, ?_, h.mono hlater⟩
  · intro y hy
    rw [Scope.lookup_cons] at hy
    by_cases hyx : y = x
    · rw [hyx]
      exact Store.binds_iff.mpr ⟨v, Store.binding?_define_self Store.hasEnv_nextEnv⟩
    · rw [if_neg hyx] at hy
      cases hy
  · exact Store.enclosing?_define.trans Store.enclosing?_addEnv_nextEnv

/-- Parameters are bound as they are declared. -/
theorem defineAll {names : List Name} {values : List Value} (h : s.Matches e Γ)
    (hlength : values.length = names.length) :
    State.Matches { s with store := s.store.defineAll e (names.map Name.text) values } e
      (Γ.introducingAll names) := by
  induction names generalizing s Γ values with
  | nil => exact h
  | cons name names ih =>
      cases values with
      | nil => cases hlength
      | cons v values => exact ih h.define (Nat.succ.inj hlength)

end State.Matches

end ScopedScript
