import ScopedScript.Proofs.Scope.Rules
import ScopedScript.Proofs.Syntax.Shape

/-!
# How scopes are nested

The scopes that enclose a place of a well-formed program come in layers: blocks and function bodies,
which declare ordinary names, and around the methods of a class the scope that declares `this`,
with the one that declares `super` just outside it. Only the innermost scope can be in the course
of declaring a name.
-/

namespace ScopedScript

open Scopes

namespace Scope

variable {scope : Scope} {x y : String} {b : Bool}

/-- A scope is in the course of declaring no name. -/
def Settled (scope : Scope) : Prop := ∀ x, scope.lookup x ≠ some false

/-- A scope declares ordinary names only. -/
def Plain (scope : Scope) : Prop := ∀ x, scope.declares x = true → Ordinary x

theorem lookup_cons :
    List.lookup y ((x, b) :: scope) = if y = x then some b else scope.lookup y := by
  rw [List.lookup_cons]
  by_cases h : y = x
  · simp [h]
  · rw [beq_false_of_ne h, if_neg h]

theorem declares_cons :
    Scope.declares ((x, b) :: scope) y = (decide (y = x) || scope.declares y) := by
  unfold declares
  rw [lookup_cons]
  by_cases h : y = x <;> simp [h]

theorem Plain.cons (h : scope.Plain) (hx : Ordinary x) : Plain ((x, b) :: scope) := by
  intro y hy
  rw [declares_cons, Bool.or_eq_true, decide_eq_true_eq] at hy
  rcases hy with rfl | hy
  · exact hx
  · exact h y hy

theorem Settled.cons (h : scope.Settled) : Settled ((x, true) :: scope) := by
  intro y
  rw [lookup_cons]
  by_cases hy : y = x
  · simp [hy]
  · rw [if_neg hy]
    exact h y

/-- Completing a declaration settles a scope that was only in the course of that one. -/
theorem Settled.define (h : scope.Settled) : Settled ((x, true) :: (x, false) :: scope) := by
  intro y
  rw [lookup_cons, lookup_cons]
  by_cases hy : y = x
  · simp [hy]
  · rw [if_neg hy, if_neg hy]
    exact h y

theorem Plain.nil : Plain [] := fun _ h => by cases h

theorem Settled.nil : Settled [] := fun _ h => by cases h

theorem settled_receiverScope : receiverScope.Settled := Settled.nil.cons

theorem settled_superclassScope : superclassScope.Settled := Settled.nil.cons

end Scope

namespace Scopes

variable {Γ : Scopes} {x : String} {d : Nat} {scope : Scope}

/-- Scopes are in the course of declaring no name. -/
def Settled (Γ : Scopes) : Prop := ∀ scope ∈ Γ, scope.Settled

/-- Scopes come in layers, and all but the innermost one are settled. -/
inductive Nested : Scopes → Prop where
  | top : Nested []
  | block {scope : Scope} {Γ : Scopes} : scope.Plain → Γ.Settled → Nested Γ → Nested (scope :: Γ)
  | methods {Γ : Scopes} : Γ.Settled → Nested Γ → Nested (receiverScope :: Γ)
  | submethods {Γ : Scopes} : Γ.Settled → Nested Γ →
      Nested (receiverScope :: superclassScope :: Γ)

/-- Scopes in which a function or a method can be declared. -/
structure Stable (Γ : Scopes) : Prop where
  nested : Γ.Nested
  settled : Γ.Settled

/-- Scopes in which a statement can stand. -/
structure Open (Γ : Scopes) : Prop extends Γ.Stable where
  plain : ∀ scope ∈ Γ.head?, scope.Plain

theorem Nested.settled_tail (h : Γ.Nested) : Scopes.Settled Γ.tail := by
  cases h with
  | top => exact fun _ h => (List.not_mem_nil h).elim
  | block _ hsettled _ | methods hsettled _ => exact hsettled
  | submethods hsettled _ =>
      exact List.forall_mem_cons.mpr ⟨Scope.settled_superclassScope, hsettled⟩

theorem getElem?_of_locate? (h : Γ.locate? x = some d) :
    ∃ scope, Γ[d]? = some scope ∧ scope.declares x = true := by
  unfold locate? at h
  rw [List.findIdx?_eq_some_iff_getElem] at h
  obtain ⟨hlt, hdeclares, _⟩ := h
  exact ⟨Γ[d], List.getElem?_eq_getElem hlt, hdeclares⟩

theorem locate?_cons : Scopes.locate? (scope :: Γ) x =
    if scope.declares x then some 0 else (Γ.locate? x).map (· + 1) := by
  unfold locate?
  rw [List.findIdx?_cons]

/-- The scope that is found for a name that can be read has declared it for good. -/
theorem Nested.exists_lookup_of_locate? (h : Γ.Nested) (hreadable : Γ.Readable x)
    (hlocate : Γ.locate? x = some d) :
    ∃ scope, Γ[d]? = some scope ∧ scope.lookup x = some true := by
  obtain ⟨scope, hscope, hdeclares⟩ := getElem?_of_locate? hlocate
  refine ⟨scope, hscope, ?_⟩
  have hsettled : scope.lookup x ≠ some false := by
    cases Γ with
    | nil => cases hscope
    | cons inner outer =>
        cases d with
        | zero =>
            cases hscope
            exact hreadable
        | succ d => exact h.settled_tail scope (List.mem_of_getElem? hscope) x
  obtain ⟨b, hb⟩ := Option.isSome_iff_exists.mp hdeclares
  cases b with
  | true => exact hb
  | false => exact (hsettled hb).elim

theorem Nested.readable_receiver (h : Γ.Nested) : Γ.Readable receiverWord := by
  cases h with
  | top => trivial
  | block hplain _ _ =>
      intro hlookup
      exact (hplain receiverWord (by simp [Scope.declares, hlookup])).1 rfl
  | methods _ _ | submethods _ _ => exact Scope.settled_receiverScope _

/-- The scope that declares `super` has just inside it the one that declares `this`. -/
theorem Nested.of_locate?_superclass (h : Γ.Nested) (hlocate : Γ.locate? superclassWord = some d) :
    ∃ inner, d = inner + 1 ∧ Γ[inner]? = some receiverScope ∧ Γ[d]? = some superclassScope := by
  have hreceiver : receiverScope.declares superclassWord = false := by decide
  induction h generalizing d with
  | top => cases hlocate
  | @block scope _ hplain _ _ ih =>
      have hnot : ¬scope.declares superclassWord = true := fun h => (hplain _ h).2 rfl
      rw [locate?_cons, if_neg hnot] at hlocate
      obtain ⟨outer, houter, rfl⟩ := Option.map_eq_some_iff.mp hlocate
      obtain ⟨inner, rfl, hinner, hsuper⟩ := ih houter
      exact ⟨inner + 1, rfl, hinner, hsuper⟩
  | methods _ _ ih =>
      rw [locate?_cons, if_neg (by simp [hreceiver])] at hlocate
      obtain ⟨outer, houter, rfl⟩ := Option.map_eq_some_iff.mp hlocate
      obtain ⟨inner, rfl, hinner, hsuper⟩ := ih houter
      exact ⟨inner + 1, rfl, hinner, hsuper⟩
  | submethods _ _ _ =>
      rw [locate?_cons, if_neg (by simp [hreceiver]), locate?_cons, if_pos (by decide)] at hlocate
      cases hlocate
      exact ⟨0, rfl, rfl, rfl⟩

theorem Nested.declaring (h : Γ.Open) (hx : Ordinary x) : (Γ.declaring x).Nested := by
  cases Γ with
  | nil => exact .top
  | cons scope Γ =>
      obtain ⟨⟨hnested, hsettled⟩, hplain⟩ := h
      have htail : Scopes.Nested Γ := by
        cases hnested with
        | block _ _ htail | methods _ htail => exact htail
        | submethods hsettled htail =>
            exact absurd rfl (hplain receiverScope rfl receiverWord (by decide)).1
      exact .block ((hplain scope rfl).cons hx) hnested.settled_tail htail

theorem Open.introducing (h : Γ.Open) (hx : Ordinary x) : (Γ.introducing x).Open := by
  cases Γ with
  | nil => exact h
  | cons scope Γ =>
      have hplain : Scope.Plain ((x, true) :: (x, false) :: scope) :=
        ((h.plain scope rfl).cons hx).cons hx
      have hscope := (h.settled scope List.mem_cons_self).define (x := x)
      have hdeclaring := Nested.declaring h hx
      refine ⟨⟨?_, ?_⟩, ?_⟩
      · cases hdeclaring with
        | block _ hsettled htail => exact .block hplain hsettled htail
      · exact List.forall_mem_cons.mpr ⟨hscope, (List.forall_mem_cons.mp h.settled).2⟩
      · rintro _ ⟨⟩
        exact hplain

theorem Open.introducingAll {names : List Name} (h : Γ.Open)
    (hnames : ∀ p ∈ names, Ordinary p.text) : (Γ.introducingAll names).Open := by
  induction names generalizing Γ with
  | nil => exact h
  | cons name names ih =>
      obtain ⟨hname, hrest⟩ := List.forall_mem_cons.mp hnames
      exact ih (h.introducing hname) hrest

/-- The declaration of a name is of no consequence for other names. -/
theorem locate?_introducing_of_ne {y : String} (h : x ≠ y) :
    (Γ.introducing y).locate? x = Γ.locate? x := by
  cases Γ with
  | nil => rfl
  | cons scope Γ =>
      change Scopes.locate? (((y, true) :: (y, false) :: scope) :: Γ) x = _
      simp only [locate?_cons, Scope.declares_cons, h, decide_false, Bool.false_or]

theorem readable_introducing_of_ne {y : String} (h : x ≠ y) :
    (Γ.introducing y).Readable x ↔ Γ.Readable x := by
  cases Γ with
  | nil => exact Iff.rfl
  | cons scope Γ =>
      change List.lookup x ((y, true) :: (y, false) :: scope) ≠ some false ↔ _
      rw [Scope.lookup_cons, if_neg h, Scope.lookup_cons, if_neg h]
      exact Iff.rfl

/-- A block can stand where scopes are stable. -/
theorem Stable.block (h : Γ.Stable) : Scopes.Open ([] :: Γ) where
  nested := .block .nil h.settled h.nested
  settled := List.forall_mem_cons.mpr ⟨.nil, h.settled⟩
  plain := by
    rintro _ ⟨⟩
    exact .nil

theorem Stable.methods (h : Γ.Stable) : Scopes.Stable (receiverScope :: Γ) where
  nested := .methods h.settled h.nested
  settled := List.forall_mem_cons.mpr ⟨Scope.settled_receiverScope, h.settled⟩

theorem Stable.submethods (h : Γ.Stable) :
    Scopes.Stable (receiverScope :: superclassScope :: Γ) where
  nested := .submethods h.settled h.nested
  settled := List.forall_mem_cons.mpr ⟨Scope.settled_receiverScope,
    List.forall_mem_cons.mpr ⟨Scope.settled_superclassScope, h.settled⟩⟩

theorem open_top : Scopes.Open [] where
  nested := .top
  settled := fun _ h => (List.not_mem_nil h).elim
  plain := fun _ h => by cases h

end Scopes

/-- The scopes after a well-formed statement are such that another statement can stand there. -/
theorem Stmt.open_after (s : Stmt) {Γ : Scopes} (hformed : s.Formed) (h : Γ.Open) :
    (s.after Γ).Open := by
  cases hdeclares : s.declares with
  | false => rwa [s.after_eq_self hformed hdeclares]
  | true =>
      cases s with
      | var name initial => exact h.introducing hformed
      | function d =>
          cases d with
          | mk name parameters body => exact h.introducing hformed.1
      | classDef name superclass methods => exact h.introducing hformed.1
      | _ => cases hdeclares

/-- Where `super` may be used, some scope declares it. -/
def Setting.FitsIn (setting : Setting) (Γ : Scopes) : Prop :=
  setting.classKind = .subclass → ∃ scope ∈ Γ, scope.declares superclassWord = true

namespace Setting.FitsIn

variable {setting : Setting} {Γ : Scopes} {x : String} {names : List Name} {scope : Scope}

theorem cons (h : setting.FitsIn Γ) : setting.FitsIn (scope :: Γ) := by
  intro hkind
  obtain ⟨outer, houter, hdeclares⟩ := h hkind
  exact ⟨outer, List.mem_cons_of_mem scope houter, hdeclares⟩

theorem declaring (h : setting.FitsIn Γ) : setting.FitsIn (Γ.declaring x) := by
  intro hkind
  obtain ⟨outer, houter, hdeclares⟩ := h hkind
  cases Γ with
  | nil => cases houter
  | cons scope Γ =>
      rcases List.mem_cons.mp houter with rfl | htail
      · exact ⟨_, List.mem_cons_self, by rw [Scope.declares_cons, hdeclares, Bool.or_true]⟩
      · exact ⟨outer, List.mem_cons_of_mem _ htail, hdeclares⟩

theorem defining (h : setting.FitsIn Γ) : setting.FitsIn (Γ.defining x) := by
  intro hkind
  obtain ⟨outer, houter, hdeclares⟩ := h hkind
  cases Γ with
  | nil => cases houter
  | cons scope Γ =>
      rcases List.mem_cons.mp houter with rfl | htail
      · exact ⟨_, List.mem_cons_self, by rw [Scope.declares_cons, hdeclares, Bool.or_true]⟩
      · exact ⟨outer, List.mem_cons_of_mem _ htail, hdeclares⟩

theorem introducing (h : setting.FitsIn Γ) : setting.FitsIn (Γ.introducing x) :=
  h.declaring.defining

theorem introducingAll (h : setting.FitsIn Γ) : setting.FitsIn (Γ.introducingAll names) := by
  induction names generalizing Γ with
  | nil => exact h
  | cons name names ih => exact ih h.introducing

theorem exists_locate? (h : setting.FitsIn Γ) (hkind : setting.classKind = .subclass) :
    ∃ d, Γ.locate? superclassWord = some d := by
  obtain ⟨scope, hscope, hdeclares⟩ := h hkind
  apply Option.isSome_iff_exists.mp
  unfold Scopes.locate?
  rw [List.findIdx?_isSome]
  exact List.any_eq_true.mpr ⟨scope, hscope, hdeclares⟩

end Setting.FitsIn

theorem Stmt.fitsIn_after (s : Stmt) {setting : Setting} {Γ : Scopes} (hformed : s.Formed)
    (h : setting.FitsIn Γ) : setting.FitsIn (s.after Γ) := by
  cases hdeclares : s.declares with
  | false => rwa [s.after_eq_self hformed hdeclares]
  | true =>
      cases s with
      | var _ _ | function _ | classDef _ _ _ => exact h.introducing
      | _ => cases hdeclares

end ScopedScript
