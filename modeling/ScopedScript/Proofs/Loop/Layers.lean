import ScopedScript.Proofs.Related
import ScopedScript.Proofs.Scope.Lexical

/-!
# Places with a scope more

Two runs of a program may differ in scopes that only one of them has and in which nothing is bound.
The same variable is then found at two distances, and this is so for each reference of a statement
if the two tables of distances say what is found in the scopes that the place has in either run.
-/

namespace ScopedScript

/-- A scope around a place, as two runs have it. -/
inductive Layer where
  | both
  /-- The first run alone has the scope. -/
  | first
  /-- The second run alone has the scope. -/
  | second
  deriving DecidableEq, Repr

/-- The scopes around a place, innermost first, up to the global one, which both runs have. -/
abbrev Layers := List Layer

namespace Layers

/-- The innermost scope is one that both runs have. -/
def Meet : Layers → Prop
  | [] | .both :: _ => True
  | .first :: _ | .second :: _ => False

/-- A scope that both runs have lies at one distance in the first run and at another one in the
second. -/
inductive Aligned : Layers → Nat → Nat → Prop where
  | here {P : Layers} : P.Meet → Aligned P 0 0
  | both {P : Layers} {d d' : Nat} : Aligned P d d' → Aligned (.both :: P) (d + 1) (d' + 1)
  | first {P : Layers} {d d' : Nat} : Aligned P d d' → Aligned (.first :: P) (d + 1) d'
  | second {P : Layers} {d d' : Nat} : Aligned P d d' → Aligned (.second :: P) d (d' + 1)

/-- Scopes around a place of a program in either run. They declare the same, and the one that only
one run has declares nothing. -/
inductive Paired : Layers → Scopes → Scopes → Prop where
  | top : Paired [] [] []
  | both {P : Layers} {scope : Scope} {Γ Γ' : Scopes} :
      Paired P Γ Γ' → Paired (.both :: P) (scope :: Γ) (scope :: Γ')
  | first {P : Layers} {Γ Γ' : Scopes} : Paired P Γ Γ' → Paired (.first :: P) ([] :: Γ) Γ'
  | second {P : Layers} {Γ Γ' : Scopes} : Paired P Γ Γ' → Paired (.second :: P) Γ ([] :: Γ')

namespace Paired

variable {P : Layers} {Γ Γ' : Scopes} {x : String} {d d' : Nat}

/-- Scopes that both runs have all of. -/
theorem same (Γ : Scopes) : Paired (Γ.map fun _ => .both) Γ Γ := by
  induction Γ with
  | nil => exact .top
  | cons scope Γ ih => exact .both ih

/-- A name is found in the same scope by both runs. -/
theorem locate? (h : P.Paired Γ Γ') (x : String) :
    Option.Rel P.Aligned (Γ.locate? x) (Γ'.locate? x) := by
  have hbare : Scope.declares [] x = false := rfl
  induction h with
  | top => exact .none
  | @both P scope Γ Γ' _ ih =>
      rw [Scopes.locate?_cons, Scopes.locate?_cons]
      by_cases hdeclares : scope.declares x = true
      · rw [if_pos hdeclares, if_pos hdeclares]
        exact .some (.here trivial)
      · rw [if_neg hdeclares, if_neg hdeclares]
        exact ih.map fun _ _ => .both
  | first _ ih =>
      rw [Scopes.locate?_cons, hbare, if_neg Bool.false_ne_true]
      have hlater := ih.map (f := (· + 1)) (g := id) fun _ _ => Aligned.first
      rwa [Option.map_id] at hlater
  | second _ ih =>
      rw [Scopes.locate?_cons (Γ := _), hbare, if_neg Bool.false_ne_true]
      have hlater := ih.map (f := id) (g := (· + 1)) fun _ _ => Aligned.second
      rwa [Option.map_id] at hlater

/-- What lies further out than the nearest common scope in one run alone declares nothing. -/
theorem first_bare (h : P.Paired Γ Γ') (ha : P.Aligned (d + 1) 0) : Γ[d]? = some [] := by
  induction h generalizing d with
  | top | both _ _ | second _ _ => cases ha
  | first _ ih =>
      cases ha with
      | first ha =>
          cases d with
          | zero => rfl
          | succ d => exact ih ha

theorem second_bare (h : P.Paired Γ Γ') (ha : P.Aligned 0 (d + 1)) : Γ'[d]? = some [] := by
  induction h generalizing d with
  | top | both _ _ | first _ _ => cases ha
  | second _ ih =>
      cases ha with
      | second ha =>
          cases d with
          | zero => rfl
          | succ d => exact ih ha

/-- If the scopes just inside a common one both declare something, they are a common one as well. -/
theorem aligned_inner (h : P.Paired Γ Γ') (ha : P.Aligned (d + 1) (d' + 1)) {scope scope' : Scope}
    (hscope : Γ[d]? = some scope) (hne : scope ≠ []) (hscope' : Γ'[d']? = some scope')
    (hne' : scope' ≠ []) : P.Aligned d d' := by
  induction h generalizing d d' with
  | top => cases ha
  | both hpaired ih =>
      cases ha with
      | both ha =>
          match d, d' with
          | 0, 0 => exact .here trivial
          | d + 1, 0 =>
              have hbare := hpaired.first_bare ha
              exact absurd (Option.some.inj (hscope.symm.trans hbare)) hne
          | 0, d' + 1 =>
              have hbare := hpaired.second_bare ha
              exact absurd (Option.some.inj (hscope'.symm.trans hbare)) hne'
          | d + 1, d' + 1 => exact .both (ih ha hscope hscope')
  | first _ ih =>
      cases ha with
      | first ha =>
          cases d with
          | zero => exact absurd (Option.some.inj hscope).symm hne
          | succ d => exact .first (ih ha hscope hscope')
  | second _ ih =>
      cases ha with
      | second ha =>
          cases d' with
          | zero => exact absurd (Option.some.inj hscope').symm hne'
          | succ d' => exact .second (ih ha hscope hscope')

theorem declaring (h : P.Paired Γ Γ') (hmeet : P.Meet) (x : String) :
    P.Paired (Γ.declaring x) (Γ'.declaring x) := by
  cases h with
  | top => exact .top
  | both h => exact .both h
  | first _ | second _ => exact hmeet.elim

theorem introducing (h : P.Paired Γ Γ') (hmeet : P.Meet) (x : String) :
    P.Paired (Γ.introducing x) (Γ'.introducing x) := by
  cases h with
  | top => exact .top
  | both h => exact .both h
  | first _ | second _ => exact hmeet.elim

theorem introducingNames (h : P.Paired Γ Γ') (hmeet : P.Meet) (xs : List String) :
    P.Paired (Γ.introducingNames xs) (Γ'.introducingNames xs) := by
  induction xs generalizing Γ Γ' with
  | nil => exact h
  | cons x xs ih => exact ih (h.introducing hmeet x)

theorem after (h : P.Paired Γ Γ') (hmeet : P.Meet) (s : Stmt) :
    P.Paired (s.after Γ) (s.after Γ') := by
  rw [s.after_eq, s.after_eq]
  exact h.introducingNames hmeet _

end Paired

end Layers

/-- What two runs know of references. -/
structure Tables where
  first : Distances
  second : Distances

namespace Tables

/-- At a place, a distance that the first run knows and one that the second run knows of the same
reference lead to the same scope. For `super`, so do the distances that are one less. -/
def Agree (T : Tables) (node : NodeId → NodeId) (P : Layers) (o : Occurrence) : Prop :=
  Option.Rel (fun d d' => P.Aligned d d' ∧ (o.role = .inherited →
    ∃ inner inner', d = inner + 1 ∧ d' = inner' + 1 ∧ P.Aligned inner inner'))
    T.first[o.id]? T.second[node o.id]?

/-- What is found for references is known to both runs, to the second one under other numbers. -/
structure Found (T : Tables) (node : NodeId → NodeId) (rs rs' : List Record) : Prop where
  first : ∀ r ∈ rs, T.first[r.1]? = r.2
  second : ∀ r ∈ rs', T.second[node r.1]? = r.2

variable {T : Tables} {node : NodeId → NodeId} {rs rs' ss ss' : List Record} {r r' : Record}

theorem Found.append (h : T.Found node (rs ++ ss) (rs' ++ ss')) :
    T.Found node rs rs' ∧ T.Found node ss ss' := by
  obtain ⟨hrs, hss⟩ := List.forall_mem_append.mp h.first
  obtain ⟨hrs', hss'⟩ := List.forall_mem_append.mp h.second
  exact ⟨⟨hrs, hrs'⟩, ⟨hss, hss'⟩⟩

theorem Found.tail (h : T.Found node (r :: rs) (r' :: rs')) : T.Found node rs rs' :=
  ⟨(List.forall_mem_cons.mp h.first).2, (List.forall_mem_cons.mp h.second).2⟩

/-- What is found in the scopes that a place has in either run leads to the same scope. -/
theorem Found.agree {P : Layers} {Γ Γ' : Scopes} {o : Occurrence} (h : T.Found node rs rs')
    (hpaired : P.Paired Γ Γ') (hnested : Γ.Nested) (hnested' : Γ'.Nested)
    (hrecord : Γ.record o.id o.word ∈ rs) (hrecord' : Γ'.record o.id o.word ∈ rs') :
    T.Agree node P o := by
  have hlocate := hpaired.locate? o.word
  have hfirst : T.first[o.id]? = Γ.locate? o.word := h.first _ hrecord
  have hsecond : T.second[node o.id]? = Γ'.locate? o.word := h.second _ hrecord'
  unfold Agree
  rw [hfirst, hsecond]
  cases hd : Γ.locate? o.word with
  | none =>
      rw [hlocate.eq_none hd]
      exact .none
  | some d =>
      obtain ⟨d', hd', haligned⟩ := hlocate.exists_of_eq_some hd
      rw [hd']
      refine .some ⟨haligned, fun hrole => ?_⟩
      have hword : o.word = superclassWord := if_pos hrole
      rw [hword] at hd hd'
      obtain ⟨inner, rfl, hreceiver, _⟩ := hnested.of_locate?_superclass hd
      obtain ⟨inner', rfl, hreceiver', _⟩ := hnested'.of_locate?_superclass hd'
      exact ⟨inner, inner', rfl, rfl, hpaired.aligned_inner haligned hreceiver
        (List.cons_ne_nil _ _) hreceiver' (List.cons_ne_nil _ _)⟩

end Tables

section Definitions

variable (T : Tables) (node : NodeId → NodeId)

/-- Both runs find the same scopes for the references of an expression. -/
def Expr.Aligned (P : Layers) (e : Expr) : Prop := ∀ o ∈ e.occurrences, T.Agree node P o

/-- Both runs find the same scopes for the references of expressions. -/
def Expr.AlignedAll (P : Layers) (es : List Expr) : Prop :=
  ∀ o ∈ Expr.occurrencesAll es, T.Agree node P o

/-- Both runs find the same scopes for the references of an expression that may be left out. -/
def Expr.AlignedOption (P : Layers) (e : Option Expr) : Prop := ∀ e' ∈ e, e'.Aligned T node P

mutual

/-- Both runs find the same scopes for the references of a statement, and where it declares
something it does so in a scope that both have. -/
def Stmt.Aligned (P : Layers) : Stmt → Prop
  | .expression e => e.Aligned T node P
  | .print e => e.Aligned T node P
  | .var _ initial => P.Meet ∧ Expr.AlignedOption T node P initial
  | .block body => Stmt.AlignedAll (.both :: P) body
  | .ifThen condition thenBranch => condition.Aligned T node P ∧ thenBranch.Aligned P
  | .ifElse condition thenBranch elseBranch =>
    condition.Aligned T node P ∧ thenBranch.Aligned P ∧ elseBranch.Aligned P
  | .loop condition body => condition.Aligned T node P ∧ body.Aligned P
  | .function d => P.Meet ∧ d.Aligned P
  | .giveBack _ value => Expr.AlignedOption T node P value
  | .classDef _ none methods => P.Meet ∧ FunctionDecl.AlignedAll (.both :: P) methods
  | .classDef _ (some ref) methods =>
    P.Meet ∧ T.Agree node P (ref.occurrence .read) ∧
      FunctionDecl.AlignedAll (.both :: .both :: P) methods

/-- Both runs find the same scopes for the references of statements. -/
def Stmt.AlignedAll (P : Layers) : List Stmt → Prop
  | [] => True
  | s :: ss => s.Aligned P ∧ Stmt.AlignedAll P ss

/-- Both runs find the same scopes for the references of the body of a function. -/
def FunctionDecl.Aligned (P : Layers) : FunctionDecl → Prop
  | ⟨_, _, body⟩ => Stmt.AlignedAll (.both :: P) body

/-- Both runs find the same scopes for the references of the bodies of methods. -/
def FunctionDecl.AlignedAll (P : Layers) : List FunctionDecl → Prop
  | [] => True
  | d :: ds => d.Aligned P ∧ FunctionDecl.AlignedAll P ds

end

end Definitions

section OfFound

variable {T : Tables} {node : NodeId → NodeId} {P : Layers} {Γ Γ' : Scopes}

theorem Expr.aligned_of_found {e : Expr} (hpaired : P.Paired Γ Γ') (hnested : Γ.Nested)
    (hnested' : Γ'.Nested) (h : T.Found node (e.records Γ) (e.records Γ')) :
    e.Aligned T node P :=
  fun _ ho => h.agree hpaired hnested hnested' (e.record_mem ho) (e.record_mem ho)

theorem Expr.alignedOption_of_found {e : Option Expr} (hpaired : P.Paired Γ Γ')
    (hnested : Γ.Nested) (hnested' : Γ'.Nested)
    (h : T.Found node (Expr.recordsOption Γ e) (Expr.recordsOption Γ' e)) :
    Expr.AlignedOption T node P e := by
  rintro e' ⟨⟩
  exact Expr.aligned_of_found hpaired hnested hnested' h

mutual

/-- If both runs know what is found in the scopes that a place has in them, they find the same
scopes for the references of a statement that stands there. -/
theorem Stmt.aligned_of_found (s : Stmt) {P : Layers} {Γ Γ' : Scopes} (hpaired : P.Paired Γ Γ')
    (hopen : Γ.Open) (hopen' : Γ'.Open) (hformed : s.Formed)
    (hmeet : s.declares = true → P.Meet) (h : T.Found node (s.records Γ) (s.records Γ')) :
    s.Aligned T node P := by
  cases s with
  | expression e | print e => exact Expr.aligned_of_found hpaired hopen.nested hopen'.nested h
  | var name initial =>
      have hhere := hmeet rfl
      exact ⟨hhere, Expr.alignedOption_of_found (hpaired.declaring hhere _)
        (.declaring hopen hformed) (.declaring hopen' hformed) h⟩
  | block body =>
      exact Stmt.alignedAll_of_found body (.both hpaired) hopen.toStable.block
        hopen'.toStable.block hformed trivial h
  | ifThen condition thenBranch =>
      obtain ⟨hcondition, hthen⟩ := h.append
      refine ⟨Expr.aligned_of_found hpaired hopen.nested hopen'.nested hcondition, ?_⟩
      refine Stmt.aligned_of_found thenBranch hpaired hopen hopen' hformed.2 ?_ hthen
      rw [hformed.1]
      exact fun hdeclares => nomatch hdeclares
  | ifElse condition thenBranch elseBranch =>
      obtain ⟨⟨hthenDeclares, hthenFormed⟩, helseDeclares, helseFormed⟩ := hformed
      obtain ⟨hcondition, hbranches⟩ := h.append
      obtain ⟨hthen, helse⟩ := hbranches.append
      rw [thenBranch.after_eq_self hthenFormed hthenDeclares,
        thenBranch.after_eq_self hthenFormed hthenDeclares] at helse
      refine ⟨Expr.aligned_of_found hpaired hopen.nested hopen'.nested hcondition, ?_, ?_⟩
      · refine Stmt.aligned_of_found thenBranch hpaired hopen hopen' hthenFormed ?_ hthen
        rw [hthenDeclares]
        exact fun hdeclares => nomatch hdeclares
      · refine Stmt.aligned_of_found elseBranch hpaired hopen hopen' helseFormed ?_ helse
        rw [helseDeclares]
        exact fun hdeclares => nomatch hdeclares
  | loop condition body =>
      obtain ⟨hcondition, hbody⟩ := h.append
      refine ⟨Expr.aligned_of_found hpaired hopen.nested hopen'.nested hcondition, ?_⟩
      refine Stmt.aligned_of_found body hpaired hopen hopen' hformed.2 ?_ hbody
      rw [hformed.1]
      exact fun hdeclares => nomatch hdeclares
  | function d =>
      have hhere := hmeet rfl
      have hname : Ordinary d.name.text := by
        cases d
        exact hformed.1
      exact ⟨hhere, FunctionDecl.aligned_of_found d (hpaired.introducing hhere _)
        (hopen.introducing hname).toStable (hopen'.introducing hname).toStable hformed h⟩
  | giveBack line value =>
      exact Expr.alignedOption_of_found hpaired hopen.nested hopen'.nested h
  | classDef name superclass methods =>
      have hhere := hmeet rfl
      obtain ⟨hname, hformed⟩ := hformed
      have hpaired := hpaired.introducing hhere name.text
      have hopen := hopen.introducing hname
      have hopen' := hopen'.introducing hname
      cases superclass with
      | none =>
          exact ⟨hhere, FunctionDecl.alignedAll_of_found methods (.both hpaired)
            hopen.toStable.methods hopen'.toStable.methods hformed h⟩
      | some ref =>
          have hmethods := FunctionDecl.alignedAll_of_found methods (.both (.both hpaired))
            hopen.toStable.submethods hopen'.toStable.submethods hformed h.tail
          exact ⟨hhere, h.agree hpaired hopen.nested hopen'.nested List.mem_cons_self
            List.mem_cons_self, hmethods⟩

theorem Stmt.alignedAll_of_found (ss : List Stmt) {P : Layers} {Γ Γ' : Scopes}
    (hpaired : P.Paired Γ Γ') (hopen : Γ.Open) (hopen' : Γ'.Open) (hformed : Stmt.FormedAll ss)
    (hmeet : P.Meet) (h : T.Found node (Stmt.recordsAll Γ ss) (Stmt.recordsAll Γ' ss)) :
    Stmt.AlignedAll T node P ss := by
  cases ss with
  | nil => trivial
  | cons s ss =>
      obtain ⟨hfirst, hrest⟩ := hformed
      obtain ⟨hfoundFirst, hfoundRest⟩ := h.append
      exact ⟨Stmt.aligned_of_found s hpaired hopen hopen' hfirst (fun _ => hmeet) hfoundFirst,
        Stmt.alignedAll_of_found ss (hpaired.after hmeet s) (s.open_after hfirst hopen)
          (s.open_after hfirst hopen') hrest hmeet hfoundRest⟩

theorem FunctionDecl.aligned_of_found (d : FunctionDecl) {P : Layers} {Γ Γ' : Scopes}
    (hpaired : P.Paired Γ Γ') (hstable : Γ.Stable) (hstable' : Γ'.Stable) (hformed : d.Formed)
    (h : T.Found node (d.records Γ) (d.records Γ')) : d.Aligned T node P := by
  cases d with
  | mk name parameters body =>
      obtain ⟨_, hparameters, hbody⟩ := hformed
      have hinner : Layers.Paired (.both :: P) (Scopes.introducingAll ([] :: Γ) parameters)
          (Scopes.introducingAll ([] :: Γ') parameters) := by
        rw [Scopes.introducingAll_eq, Scopes.introducingAll_eq]
        exact hpaired.both.introducingNames trivial _
      exact Stmt.alignedAll_of_found body hinner (hstable.block.introducingAll hparameters)
        (hstable'.block.introducingAll hparameters) hbody trivial h

theorem FunctionDecl.alignedAll_of_found (ds : List FunctionDecl) {P : Layers} {Γ Γ' : Scopes}
    (hpaired : P.Paired Γ Γ') (hstable : Γ.Stable) (hstable' : Γ'.Stable)
    (hformed : FunctionDecl.FormedAll ds)
    (h : T.Found node (FunctionDecl.recordsAll Γ ds) (FunctionDecl.recordsAll Γ' ds)) :
    FunctionDecl.AlignedAll T node P ds := by
  cases ds with
  | nil => trivial
  | cons d ds =>
      obtain ⟨hfirst, hrest⟩ := h.append
      exact ⟨FunctionDecl.aligned_of_found d hpaired hstable hstable' hformed.1 hfirst,
        FunctionDecl.alignedAll_of_found ds hpaired hstable hstable' hformed.2 hrest⟩

end

end OfFound

end ScopedScript
