import ScopedScript.Proofs.Renaming.TwinOfRenaming

/-!
# Twins are resolved alike

If the new name occurs nowhere in a program that obeys the rules of scoping, a twin of the program
obeys them too, and the same is found for its references: an exchanged name is declared in the scope
in which the name it is exchanged for was declared, and no scope in between declares it.
-/

namespace ScopedScript

/-- A scope with the names exchanged that it declares, if it is marked. -/
def Scope.exchanged (ρ : Renaming) (marked : Bool) (scope : Scope) : Scope :=
  scope.map fun entry => (ρ.exchange marked entry.1, entry.2)

/-- Scopes that differ in the names of marked ones. -/
inductive Scopes.Exchanged (ρ : Renaming) : Marks → Scopes → Scopes → Prop where
  | nil : Scopes.Exchanged ρ [] [] []
  | cons {b : Bool} {marks : Marks} {scope : Scope} {Γ Γ' : Scopes} :
      Scopes.Exchanged ρ marks Γ Γ' →
      Scopes.Exchanged ρ (b :: marks) (scope :: Γ) (scope.exchanged ρ b :: Γ')

/-- Scopes that differ in the names of marked ones, none of which declares the new name before the
exchange. -/
structure Scopes.Twin (ρ : Renaming) (marks : Marks) (Γ Γ' : Scopes) : Prop where
  exchanged : Scopes.Exchanged ρ marks Γ Γ'
  lacks : ∀ scope ∈ Γ, scope.declares ρ.new = false

variable {ρ : Renaming} {marks : Marks} {Γ Γ' : Scopes} {b c : Bool} {x : String} {d : Nat}

namespace Scope

variable {scope : Scope}

theorem lookup_exchanged :
    (scope.exchanged ρ b).lookup (ρ.exchange b x) = scope.lookup x := by
  induction scope with
  | nil => rfl
  | cons entry scope ih =>
      obtain ⟨y, done⟩ := entry
      change List.lookup _ ((ρ.exchange b y, done) :: Scope.exchanged ρ b scope) = _
      rw [lookup_cons, lookup_cons, ih]
      simp only [Renaming.exchange_inj]

theorem declares_exchanged :
    (scope.exchanged ρ b).declares (ρ.exchange b x) = scope.declares x := by
  unfold declares
  rw [lookup_exchanged]

/-- A name that a scope does not declare is not declared after the exchange, whether it is exchanged
itself or not. -/
theorem declares_exchanged_of_not (hlacks : scope.declares ρ.new = false) (hx : x ≠ ρ.new)
    (hnot : scope.declares x = false) :
    (scope.exchanged ρ b).declares (ρ.exchange c x) = false := by
  by_cases hmarked : c = b
  · rw [hmarked, declares_exchanged, hnot]
  by_cases hold : x = ρ.old
  · -- One side of the exchange is the new name, which the scope does not declare.
    have hother : ρ.exchange c x = ρ.exchange b ρ.new := by
      cases b <;> cases c <;> simp_all [Renaming.exchange, Renaming.swap]
    rw [hother, declares_exchanged, hlacks]
  · have hsame (marked : Bool) : ρ.exchange marked x = x := Renaming.exchange_of_ne hold hx
    rw [hsame, ← hsame b, declares_exchanged, hnot]

end Scope

namespace Scopes

namespace Twin

theorem nil : Scopes.Twin ρ [] [] [] := ⟨.nil, fun _ h => (List.not_mem_nil h).elim⟩

/-- The innermost scope of each, in which nothing is declared yet, may be marked. -/
theorem inner (h : Scopes.Twin ρ marks Γ Γ') : Scopes.Twin ρ (b :: marks) ([] :: Γ) ([] :: Γ') :=
  ⟨.cons h.exchanged, List.forall_mem_cons.mpr ⟨rfl, h.lacks⟩⟩

theorem unmarked {scope : Scope} (h : Scopes.Twin ρ marks Γ Γ')
    (hlacks : scope.declares ρ.new = false) :
    Scopes.Twin ρ (false :: marks) (scope :: Γ) (scope :: Γ') := by
  have hscope : scope.exchanged ρ false = scope := by simp [Scope.exchanged, Renaming.exchange]
  have hcons : Exchanged ρ (false :: marks) (scope :: Γ) (scope.exchanged ρ false :: Γ') :=
    .cons h.exchanged
  rw [hscope] at hcons
  exact ⟨hcons, List.forall_mem_cons.mpr ⟨hlacks, h.lacks⟩⟩

theorem declaring (h : Scopes.Twin ρ marks Γ Γ') (hx : x ≠ ρ.new) :
    Scopes.Twin ρ marks (Γ.declaring x) (Γ'.declaring (ρ.exchange (marks.at 0) x)) := by
  obtain ⟨hexchanged, hlacks⟩ := h
  cases hexchanged with
  | nil => exact nil
  | @cons b marks scope Γ Γ' hexchanged =>
      obtain ⟨hscope, hrest⟩ := List.forall_mem_cons.mp hlacks
      have hcons : Exchanged ρ (b :: marks) (((x, false) :: scope) :: Γ)
          (Scope.exchanged ρ b ((x, false) :: scope) :: Γ') := .cons hexchanged
      refine ⟨hcons, List.forall_mem_cons.mpr ⟨?_, hrest⟩⟩
      simp [Scope.declares_cons, hscope, Ne.symm hx]

theorem introducing (h : Scopes.Twin ρ marks Γ Γ') (hx : x ≠ ρ.new) :
    Scopes.Twin ρ marks (Γ.introducing x) (Γ'.introducing (ρ.exchange (marks.at 0) x)) := by
  obtain ⟨hexchanged, hlacks⟩ := h
  cases hexchanged with
  | nil => exact nil
  | @cons b marks scope Γ Γ' hexchanged =>
      obtain ⟨hscope, hrest⟩ := List.forall_mem_cons.mp hlacks
      have hcons : Exchanged ρ (b :: marks) (((x, true) :: (x, false) :: scope) :: Γ)
          (Scope.exchanged ρ b ((x, true) :: (x, false) :: scope) :: Γ') := .cons hexchanged
      refine ⟨hcons, List.forall_mem_cons.mpr ⟨?_, hrest⟩⟩
      simp [Scope.declares_cons, hscope, Ne.symm hx]

/-- A name that is not exchanged is declared alike. -/
theorem introducing_of_kept (h : Scopes.Twin ρ marks Γ Γ') (hx : x ≠ ρ.new)
    (hkept : ρ.exchange (marks.at 0) x = x) :
    Scopes.Twin ρ marks (Γ.introducing x) (Γ'.introducing x) := by
  have hafter := h.introducing hx
  rwa [hkept] at hafter

/-- Parameters are declared alike. -/
theorem introducingAll {names : List Name} (h : Scopes.Twin ρ (b :: marks) Γ Γ')
    (hnames : ∀ p ∈ names, p.text ≠ ρ.new) :
    Scopes.Twin ρ (b :: marks) (Γ.introducingAll names)
      (Γ'.introducingAll (names.map (ρ.twinName b))) := by
  induction names generalizing Γ Γ' with
  | nil => exact h
  | cons name names ih =>
      obtain ⟨hname, hrest⟩ := List.forall_mem_cons.mp hnames
      exact ih (h.introducing hname) hrest

theorem fresh (h : Scopes.Twin ρ marks Γ Γ') (hfresh : Γ.Fresh x) :
    Γ'.Fresh (ρ.exchange (marks.at 0) x) := by
  obtain ⟨hexchanged, _⟩ := h
  cases hexchanged with
  | nil => trivial
  | cons _ => exact Scope.declares_exchanged.trans hfresh

theorem fresh_of_kept (h : Scopes.Twin ρ marks Γ Γ') (hkept : ρ.exchange (marks.at 0) x = x)
    (hfresh : Γ.Fresh x) : Γ'.Fresh x := by
  have hafter := h.fresh hfresh
  rwa [hkept] at hafter

theorem freshAll {names : List Name} (h : Scopes.Twin ρ (b :: marks) Γ Γ')
    (hnames : ∀ p ∈ names, p.text ≠ ρ.new) (hfresh : Γ.FreshAll names) :
    Γ'.FreshAll (names.map (ρ.twinName b)) := by
  induction names generalizing Γ Γ' with
  | nil => trivial
  | cons name names ih =>
      obtain ⟨hname, hrest⟩ := List.forall_mem_cons.mp hnames
      exact ⟨h.fresh hfresh.1, ih (h.introducing hname) hrest hfresh.2⟩

/-- A name that no scope declares is declared by none after the exchange. -/
theorem locate?_of_none (h : Scopes.Twin ρ marks Γ Γ') (hx : x ≠ ρ.new)
    (hlocate : Γ.locate? x = none) : Γ'.locate? (ρ.exchange c x) = none := by
  obtain ⟨hexchanged, hlacks⟩ := h
  induction hexchanged with
  | nil => rfl
  | @cons b marks scope Γ Γ' _ ih =>
      obtain ⟨hscope, hrest⟩ := List.forall_mem_cons.mp hlacks
      rw [locate?_cons] at hlocate ⊢
      cases hdeclares : scope.declares x with
      | true =>
          rw [hdeclares, if_pos rfl] at hlocate
          cases hlocate
      | false =>
          -- the name is missing here, and the exchange does not bring it in
          rw [hdeclares, if_neg Bool.false_ne_true, Option.map_eq_none_iff] at hlocate
          rw [Scope.declares_exchanged_of_not hscope hx hdeclares, if_neg Bool.false_ne_true,
            ih hlocate hrest]
          rfl

/-- A name is found at the same distance after the exchange, under the name that it has in the
scope there. -/
theorem locate?_of_some (h : Scopes.Twin ρ marks Γ Γ') (hx : x ≠ ρ.new)
    (hlocate : Γ.locate? x = some d) :
    Γ'.locate? (ρ.exchange (marks.at d) x) = some d := by
  obtain ⟨hexchanged, hlacks⟩ := h
  induction hexchanged generalizing d with
  | nil => cases hlocate
  | @cons b marks scope Γ Γ' _ ih =>
      obtain ⟨hscope, hrest⟩ := List.forall_mem_cons.mp hlacks
      rw [locate?_cons] at hlocate ⊢
      cases hdeclares : scope.declares x with
      | true =>
          rw [hdeclares, if_pos rfl] at hlocate
          cases hlocate
          rw [if_pos]
          exact Scope.declares_exchanged.trans hdeclares
      | false =>
          rw [hdeclares, if_neg Bool.false_ne_true] at hlocate
          obtain ⟨outer, houter, rfl⟩ := Option.map_eq_some_iff.mp hlocate
          rw [Scope.declares_exchanged_of_not hscope hx hdeclares, if_neg Bool.false_ne_true]
          exact congrArg (Option.map (· + 1)) (ih houter hrest)

/-- A name that can be read can be read after the exchange, under the name that it has in the scope
in which it is found. -/
theorem readable (h : Scopes.Twin ρ marks Γ Γ') (hx : x ≠ ρ.new) (hreadable : Γ.Readable x)
    (hc : ∀ d, Γ.locate? x = some d → c = marks.at d) : Γ'.Readable (ρ.exchange c x) := by
  obtain ⟨hexchanged, hlacks⟩ := h
  cases hexchanged with
  | nil => trivial
  | @cons b marks scope Γ Γ' _ =>
      cases hdeclares : scope.declares x with
      | true =>
          have hlocate : Scopes.locate? (scope :: Γ) x = some 0 := by
            rw [locate?_cons, hdeclares, if_pos rfl]
          rw [hc 0 hlocate]
          exact fun hlookup => hreadable (Scope.lookup_exchanged.symm.trans hlookup)
      | false =>
          have hnot := Scope.declares_exchanged_of_not (b := b) (c := c)
            (List.forall_mem_cons.mp hlacks).1 hx hdeclares
          intro hlookup
          rw [Scope.declares, hlookup] at hnot
          cases hnot

/-- What is found for a name that is never exchanged is the same after the exchange. -/
theorem locate?_of_ne (h : Scopes.Twin ρ marks Γ Γ') (hnew : x ≠ ρ.new) (hold : x ≠ ρ.old) :
    Γ'.locate? x = Γ.locate? x := by
  cases hlocate : Γ.locate? x with
  | none =>
      have hnone := h.locate?_of_none (c := false) hnew hlocate
      exact hnone
  | some d =>
      have hsome := h.locate?_of_some hnew hlocate
      rwa [Renaming.exchange_of_ne hold hnew] at hsome

end Twin

end Scopes

section References

variable {ref : Reference}

/-- If the new name is neither that of a reference nor the other one, the exchange does not make
the two the same. -/
theorem Renaming.twinReference_ne {y : String} (hnew : ref.name.text ≠ ρ.new)
    (hne : ref.name.text ≠ y) (hy : y ≠ ρ.new) : (ρ.twinReference marks ref).name.text ≠ y := by
  unfold Renaming.twinReference
  cases ρ.distances[ref.id]? with
  | none => exact hne
  | some d =>
      simp only [Renaming.twinName]
      by_cases hold : ref.name.text = ρ.old
      · cases marks.at d with
        | false => exact hne
        | true => simpa [Renaming.exchange, Renaming.swap, hold] using hy.symm
      · rwa [Renaming.exchange_of_ne hold hnew]

/-- The same is found for a reference and for its twin. -/
theorem Scopes.Twin.record (h : Scopes.Twin ρ marks Γ Γ') (hne : ref.name.text ≠ ρ.new)
    (hfound : ρ.distances[ref.id]? = Γ.locate? ref.name.text) :
    Γ'.record (ρ.twinReference marks ref).id (ρ.twinReference marks ref).name.text =
      Γ.record ref.id ref.name.text := by
  unfold Renaming.twinReference Scopes.record
  rw [hfound]
  cases hlocate : Γ.locate? ref.name.text with
  | none =>
      have hnone := h.locate?_of_none (c := false) hne hlocate
      exact congrArg _ hnone
  | some d => exact congrArg _ (h.locate?_of_some hne hlocate)

theorem Scopes.Twin.readable_twinReference (h : Scopes.Twin ρ marks Γ Γ')
    (hne : ref.name.text ≠ ρ.new) (hfound : ρ.distances[ref.id]? = Γ.locate? ref.name.text)
    (hreadable : Γ.Readable ref.name.text) :
    Γ'.Readable (ρ.twinReference marks ref).name.text := by
  unfold Renaming.twinReference
  rw [hfound]
  cases hlocate : Γ.locate? ref.name.text with
  | none =>
      refine h.readable (c := false) hne hreadable fun d hd => ?_
      rw [hlocate] at hd
      cases hd
  | some d =>
      refine h.readable hne hreadable fun d' hd' => ?_
      rw [hlocate] at hd'
      cases hd'
      rfl

end References

/-- Something that is resolved is resolved after the exchange, and the same is found for its
references. -/
structure ResolvedAlike (rule rule' : Prop) (rs rs' : List Record) : Prop where
  keeps : rule → rule'
  records_eq : rs' = rs

theorem ResolvedAlike.and {P P' Q Q' : Prop} {rs rs' qs qs' : List Record}
    (h : ResolvedAlike P P' rs rs') (h' : ResolvedAlike Q Q' qs qs') :
    ResolvedAlike (P ∧ Q) (P' ∧ Q') (rs ++ qs) (rs' ++ qs') where
  keeps hPQ := ⟨h.keeps hPQ.1, h'.keeps hPQ.2⟩
  records_eq := by rw [h.records_eq, h'.records_eq]

section Trees

variable {n : NodeId} {setting : Setting}

mutual

theorem Expr.resolvedAlike (e : Expr) (setting : Setting) (hold : Ordinary ρ.old)
    (hnew : Ordinary ρ.new) (h : Scopes.Twin ρ marks Γ Γ') (hnames : ρ.new ∉ e.names)
    (hrecorded : Recorded n ρ.distances (e.records Γ)) :
    ResolvedAlike (e.Obeys setting Γ)
      ((e.mapReferences (ρ.twinReference marks)).Obeys setting Γ')
      (e.records Γ) ((e.mapReferences (ρ.twinReference marks)).records Γ') := by
  cases e with
  | literal value => exact ⟨id, rfl⟩
  | unary op line operand => exact operand.resolvedAlike setting hold hnew h hnames hrecorded
  | grouping inner => exact inner.resolvedAlike setting hold hnew h hnames hrecorded
  | binary op line left right =>
      simp only [Expr.names, List.mem_append, not_or] at hnames
      obtain ⟨hleft, hright⟩ := Recorded.append hrecorded
      exact (left.resolvedAlike setting hold hnew h hnames.1 hleft).and
        (right.resolvedAlike setting hold hnew h hnames.2 hright)
  | logical op line left right =>
      simp only [Expr.names, List.mem_append, not_or] at hnames
      obtain ⟨hleft, hright⟩ := Recorded.append hrecorded
      exact (left.resolvedAlike setting hold hnew h hnames.1 hleft).and
        (right.resolvedAlike setting hold hnew h hnames.2 hright)
  | name ref =>
      have hne : ref.name.text ≠ ρ.new := fun heq => hnames (heq ▸ List.mem_cons_self)
      have hfound := (Recorded.cons hrecorded).1.2
      exact ⟨h.readable_twinReference hne hfound, congrArg (fun r => [r]) (h.record hne hfound)⟩
  | assign ref value =>
      simp only [Expr.names, List.mem_cons, not_or] at hnames
      obtain ⟨hvalue, href⟩ := Recorded.append hrecorded
      have hfound := (Recorded.cons href).1.2
      obtain ⟨hkeeps, hvalue⟩ := value.resolvedAlike setting hold hnew h hnames.2 hvalue
      refine ⟨hkeeps, ?_⟩
      simp only [Expr.mapReferences, Expr.records, hvalue, h.record (Ne.symm hnames.1) hfound]
  | call callee line arguments =>
      simp only [Expr.names, List.mem_append, not_or] at hnames
      obtain ⟨hcallee, harguments⟩ := Recorded.append hrecorded
      exact (callee.resolvedAlike setting hold hnew h hnames.1 hcallee).and
        (Expr.resolvedAlikeAll arguments setting hold hnew h hnames.2 harguments)
  | get object property =>
      simp only [Expr.names, List.mem_cons, not_or] at hnames
      exact object.resolvedAlike setting hold hnew h hnames.2 hrecorded
  | set object property value =>
      simp only [Expr.names, List.mem_cons, List.mem_append, not_or] at hnames
      obtain ⟨hvalue, hobject⟩ := Recorded.append hrecorded
      exact (value.resolvedAlike setting hold hnew h hnames.2.2 hvalue).and
        (object.resolvedAlike setting hold hnew h hnames.2.1 hobject)
  | receiver id line =>
      refine ⟨fun hobeys => hobeys, ?_⟩
      exact congrArg (fun found => [(id, found)]) (h.locate?_of_ne hnew.1.symm hold.1.symm)
  | inherited id line method =>
      refine ⟨fun hobeys => hobeys, ?_⟩
      exact congrArg (fun found => [(id, found)]) (h.locate?_of_ne hnew.2.symm hold.2.symm)

theorem Expr.resolvedAlikeAll (es : List Expr) (setting : Setting) (hold : Ordinary ρ.old)
    (hnew : Ordinary ρ.new) (h : Scopes.Twin ρ marks Γ Γ') (hnames : ρ.new ∉ Expr.namesAll es)
    (hrecorded : Recorded n ρ.distances (Expr.recordsAll Γ es)) :
    ResolvedAlike (Expr.ObeysAll setting Γ es)
      (Expr.ObeysAll setting Γ' (Expr.mapReferencesAll (ρ.twinReference marks) es))
      (Expr.recordsAll Γ es)
      (Expr.recordsAll Γ' (Expr.mapReferencesAll (ρ.twinReference marks) es)) := by
  cases es with
  | nil => exact ⟨id, rfl⟩
  | cons e es =>
      simp only [Expr.namesAll, List.mem_append, not_or] at hnames
      obtain ⟨hfirst, hrest⟩ := Recorded.append hrecorded
      exact (e.resolvedAlike setting hold hnew h hnames.1 hfirst).and
        (Expr.resolvedAlikeAll es setting hold hnew h hnames.2 hrest)

end

theorem Expr.resolvedAlikeOption (e : Option Expr) (setting : Setting) (hold : Ordinary ρ.old)
    (hnew : Ordinary ρ.new) (h : Scopes.Twin ρ marks Γ Γ') (hnames : ρ.new ∉ Expr.namesOption e)
    (hrecorded : Recorded n ρ.distances (Expr.recordsOption Γ e)) :
    ResolvedAlike (Expr.ObeysOption setting Γ e)
      (Expr.ObeysOption setting Γ' (Expr.mapReferencesOption (ρ.twinReference marks) e))
      (Expr.recordsOption Γ e)
      (Expr.recordsOption Γ' (Expr.mapReferencesOption (ρ.twinReference marks) e)) := by
  cases e with
  | none => exact ⟨id, rfl⟩
  | some e => exact e.resolvedAlike setting hold hnew h hnames hrecorded

theorem FunctionDecl.text_ne {d : FunctionDecl} (hnames : x ∉ FunctionDecl.names d) :
    d.name.text ≠ x := by
  cases d with
  | mk name parameters body => exact fun heq => hnames (heq ▸ List.mem_cons_self)

theorem Ordinary.not_declares_receiver (h : Ordinary x) :
    Scopes.receiverScope.declares x = false := by
  simp [Scopes.receiverScope, Scope.declares, h.1]

theorem Ordinary.not_declares_superclass (h : Ordinary x) :
    Scopes.superclassScope.declares x = false := by
  simp [Scopes.superclassScope, Scope.declares, h.2]

/-- The scopes after a statement and those after its twin are twins. -/
theorem Stmt.twin_after (s : Stmt) {s' : Stmt} {marks : Marks} {Γ Γ' : Scopes}
    (hs : Stmt.Twin ρ marks s s') (h : Scopes.Twin ρ marks Γ Γ') (hnames : ρ.new ∉ s.names) :
    Scopes.Twin ρ marks (s.after Γ) (s'.after Γ') := by
  cases s with
  | expression e =>
      rw [hs.eq_of_expression]
      exact h
  | print e =>
      rw [hs.eq_of_print]
      exact h
  | giveBack line value =>
      rw [hs.eq_of_giveBack]
      exact h
  | block body =>
      obtain ⟨_, _, rfl, _⟩ := hs.exists_of_block
      exact h
  | var name initial =>
      simp only [Stmt.names, List.mem_cons, not_or] at hnames
      rw [hs.eq_of_var]
      exact h.introducing (Ne.symm hnames.1)
  | ifThen condition thenBranch =>
      simp only [Stmt.names, List.mem_append, not_or] at hnames
      obtain ⟨thenBranch', rfl, hthen⟩ := hs.exists_of_ifThen
      have hafter := thenBranch.twin_after hthen h hnames.2
      exact hafter
  | ifElse condition thenBranch elseBranch =>
      simp only [Stmt.names, List.mem_append, not_or] at hnames
      obtain ⟨thenBranch', elseBranch', rfl, hthen, helse⟩ := hs.exists_of_ifElse
      have hafter := thenBranch.twin_after hthen h hnames.2.1
      have hafterElse := elseBranch.twin_after helse hafter hnames.2.2
      exact hafterElse
  | loop condition body =>
      simp only [Stmt.names, List.mem_append, not_or] at hnames
      obtain ⟨body', rfl, hbody⟩ := hs.exists_of_loop
      have hafter := body.twin_after hbody h hnames.2
      exact hafter
  | function d =>
      obtain ⟨d', rfl, hname, hd⟩ := hs.exists_of_function
      unfold Stmt.after
      rw [hd.name_eq]
      exact h.introducing_of_kept (FunctionDecl.text_ne hnames) hname
  | classDef name superclass methods =>
      cases superclass with
      | none =>
          simp only [Stmt.names, List.mem_cons, not_or] at hnames
          obtain ⟨methods', rfl, hname, _⟩ := hs.exists_of_plainClass
          exact h.introducing_of_kept (Ne.symm hnames.1) hname
      | some ref =>
          simp only [Stmt.names, List.mem_cons, not_or] at hnames
          obtain ⟨methods', rfl, hname, _⟩ := hs.exists_of_subclass
          exact h.introducing_of_kept (Ne.symm hnames.1) hname

mutual

/-- A twin of a statement is resolved alike. -/
theorem Stmt.resolvedAlike (s : Stmt) {s' : Stmt} {marks : Marks} {Γ Γ' : Scopes}
    (setting : Setting) (hold : Ordinary ρ.old) (hnew : Ordinary ρ.new)
    (hs : Stmt.Twin ρ marks s s') (h : Scopes.Twin ρ marks Γ Γ') (hnames : ρ.new ∉ s.names)
    (hrecorded : Recorded n ρ.distances (s.records Γ)) :
    ResolvedAlike (s.Obeys setting Γ) (s'.Obeys setting Γ') (s.records Γ) (s'.records Γ') := by
  cases s with
  | expression e =>
      rw [hs.eq_of_expression]
      exact e.resolvedAlike setting hold hnew h hnames hrecorded
  | print e =>
      rw [hs.eq_of_print]
      exact e.resolvedAlike setting hold hnew h hnames hrecorded
  | var name initial =>
      simp only [Stmt.names, List.mem_cons, not_or] at hnames
      obtain ⟨hkeeps, hrecords⟩ := Expr.resolvedAlikeOption initial setting hold hnew
        (h.declaring (Ne.symm hnames.1)) hnames.2 hrecorded
      rw [hs.eq_of_var]
      exact ⟨fun hobeys => ⟨h.fresh hobeys.1, hkeeps hobeys.2⟩, hrecords⟩
  | block body =>
      obtain ⟨b, body', rfl, hbody⟩ := hs.exists_of_block
      exact Stmt.resolvedAlikeAll body setting hold hnew hbody h.inner hnames hrecorded
  | ifThen condition thenBranch =>
      simp only [Stmt.names, List.mem_append, not_or] at hnames
      obtain ⟨hcondition, hthen⟩ := Recorded.append hrecorded
      obtain ⟨thenBranch', rfl, hthenTwin⟩ := hs.exists_of_ifThen
      exact (condition.resolvedAlike setting hold hnew h hnames.1 hcondition).and
        (thenBranch.resolvedAlike setting hold hnew hthenTwin h hnames.2 hthen)
  | ifElse condition thenBranch elseBranch =>
      simp only [Stmt.names, List.mem_append, not_or] at hnames
      obtain ⟨hcondition, hbranches⟩ := Recorded.append hrecorded
      obtain ⟨hthen, helse⟩ := Recorded.append hbranches
      obtain ⟨thenBranch', elseBranch', rfl, hthenTwin, helseTwin⟩ := hs.exists_of_ifElse
      -- what the first branch declares, as a bare declaration may, the second branch sees
      have hafter := thenBranch.twin_after hthenTwin h hnames.2.1
      exact (condition.resolvedAlike setting hold hnew h hnames.1 hcondition).and
        ((thenBranch.resolvedAlike setting hold hnew hthenTwin h hnames.2.1 hthen).and
          (elseBranch.resolvedAlike setting hold hnew helseTwin hafter hnames.2.2 helse))
  | loop condition body =>
      simp only [Stmt.names, List.mem_append, not_or] at hnames
      obtain ⟨hcondition, hbody⟩ := Recorded.append hrecorded
      obtain ⟨body', rfl, hbodyTwin⟩ := hs.exists_of_loop
      exact (condition.resolvedAlike setting hold hnew h hnames.1 hcondition).and
        (body.resolvedAlike setting hold hnew hbodyTwin h hnames.2 hbody)
  | function d =>
      obtain ⟨d', rfl, hname, hd⟩ := hs.exists_of_function
      have hafter := h.introducing_of_kept (FunctionDecl.text_ne hnames) hname
      obtain ⟨hkeeps, hrecords⟩ := FunctionDecl.resolvedAlike d
        { setting with body := .function } hold hnew hd hafter hnames hrecorded
      unfold Stmt.Obeys Stmt.records
      rw [hd.name_eq]
      exact ⟨fun hobeys => ⟨h.fresh_of_kept hname hobeys.1, hkeeps hobeys.2⟩, hrecords⟩
  | giveBack line value =>
      obtain ⟨hkeeps, hrecords⟩ := Expr.resolvedAlikeOption value setting hold hnew h
        hnames hrecorded
      rw [hs.eq_of_giveBack]
      refine ⟨fun hobeys => ⟨hobeys.1, fun hbody => ?_, hkeeps hobeys.2.2⟩, hrecords⟩
      rw [hobeys.2.1 hbody]
      rfl
  | classDef name superclass methods =>
      cases superclass with
      | none =>
          simp only [Stmt.names, List.mem_cons, not_or] at hnames
          obtain ⟨methods', rfl, hname, hmethods⟩ := hs.exists_of_plainClass
          have hafter := h.introducing_of_kept (Ne.symm hnames.1) hname
          obtain ⟨hkeeps, hrecords⟩ := FunctionDecl.resolvedAlikeAll methods
            { setting with classKind := .plain } hold hnew hmethods
            (hafter.unmarked hnew.not_declares_receiver) hnames.2 hrecorded
          exact ⟨fun hobeys => ⟨h.fresh_of_kept hname hobeys.1, hkeeps hobeys.2⟩, hrecords⟩
      | some ref =>
          simp only [Stmt.names, List.mem_cons, not_or] at hnames
          obtain ⟨methods', rfl, hname, hmethods⟩ := hs.exists_of_subclass
          obtain ⟨⟨_, hfound⟩, hmethodsRecorded⟩ := Recorded.cons hrecorded
          have hafter := h.introducing_of_kept (Ne.symm hnames.1) hname
          have hne : ref.name.text ≠ ρ.new := Ne.symm hnames.2.1
          have hinner := (hafter.unmarked hnew.not_declares_superclass).unmarked
            hnew.not_declares_receiver
          obtain ⟨hkeeps, hrecords⟩ := FunctionDecl.resolvedAlikeAll methods
            { setting with classKind := .subclass } hold hnew hmethods hinner hnames.2.2
            hmethodsRecorded
          -- the superclass is still another class, can be read, and is found at the same distance
          refine ⟨fun hobeys => ⟨h.fresh_of_kept hname hobeys.1, ?_, ?_, hkeeps hobeys.2.2.2⟩, ?_⟩
          · exact Renaming.twinReference_ne hne hobeys.2.1 (Ne.symm hnames.1)
          · exact hafter.readable_twinReference hne hfound hobeys.2.2.1
          · unfold Stmt.records
            rw [hafter.record hne hfound, hrecords]

theorem Stmt.resolvedAlikeAll (ss : List Stmt) {ss' : List Stmt} {marks : Marks} {Γ Γ' : Scopes}
    (setting : Setting) (hold : Ordinary ρ.old) (hnew : Ordinary ρ.new)
    (hss : Stmt.TwinAll ρ marks ss ss') (h : Scopes.Twin ρ marks Γ Γ')
    (hnames : ρ.new ∉ Stmt.namesAll ss)
    (hrecorded : Recorded n ρ.distances (Stmt.recordsAll Γ ss)) :
    ResolvedAlike (Stmt.ObeysAll setting Γ ss) (Stmt.ObeysAll setting Γ' ss')
      (Stmt.recordsAll Γ ss) (Stmt.recordsAll Γ' ss') := by
  cases ss with
  | nil =>
      cases hss
      exact ⟨id, rfl⟩
  | cons s ss =>
      simp only [Stmt.namesAll, List.mem_append, not_or] at hnames
      obtain ⟨hfirst, hrest⟩ := Recorded.append hrecorded
      cases hss with
      | cons hs hss =>
          exact (s.resolvedAlike setting hold hnew hs h hnames.1 hfirst).and
            (Stmt.resolvedAlikeAll ss setting hold hnew hss (s.twin_after hs h hnames.1) hnames.2
              hrest)

theorem FunctionDecl.resolvedAlike (d : FunctionDecl) {d' : FunctionDecl} {marks : Marks}
    {Γ Γ' : Scopes} (setting : Setting) (hold : Ordinary ρ.old) (hnew : Ordinary ρ.new)
    (hd : FunctionDecl.Twin ρ marks d d') (h : Scopes.Twin ρ marks Γ Γ')
    (hnames : ρ.new ∉ FunctionDecl.names d)
    (hrecorded : Recorded n ρ.distances (d.records Γ)) :
    ResolvedAlike (d.Obeys setting Γ) (d'.Obeys setting Γ') (d.records Γ) (d'.records Γ') := by
  cases d with
  | mk name parameters body =>
      simp only [FunctionDecl.names, List.mem_cons, List.mem_append, List.mem_map, not_or] at hnames
      have hparameters : ∀ p ∈ parameters, p.text ≠ ρ.new := fun p hp heq =>
        hnames.2.1 ⟨p, hp, heq⟩
      cases hd with
      | @mk _ b _ _ _ _ hbody =>
          have hinner : Scopes.Twin ρ (b :: marks) ([] :: Γ) ([] :: Γ') := h.inner
          obtain ⟨hkeeps, hrecords⟩ := Stmt.resolvedAlikeAll body setting hold hnew
            hbody (hinner.introducingAll hparameters) hnames.2.2 hrecorded
          exact ⟨fun hobeys => ⟨hinner.freshAll hparameters hobeys.1, hkeeps hobeys.2⟩, hrecords⟩

theorem FunctionDecl.resolvedAlikeAll (ds : List FunctionDecl) {ds' : List FunctionDecl}
    {marks : Marks} {Γ Γ' : Scopes} (setting : Setting) (hold : Ordinary ρ.old)
    (hnew : Ordinary ρ.new) (hds : FunctionDecl.TwinAll ρ marks ds ds')
    (h : Scopes.Twin ρ marks Γ Γ') (hnames : ρ.new ∉ FunctionDecl.namesAll ds)
    (hrecorded : Recorded n ρ.distances (FunctionDecl.recordsAll Γ ds)) :
    ResolvedAlike (FunctionDecl.ObeysAll setting Γ ds) (FunctionDecl.ObeysAll setting Γ' ds')
      (FunctionDecl.recordsAll Γ ds) (FunctionDecl.recordsAll Γ' ds') := by
  cases ds with
  | nil =>
      cases hds
      exact ⟨id, rfl⟩
  | cons d ds =>
      simp only [FunctionDecl.namesAll, List.mem_append, not_or] at hnames
      obtain ⟨hfirst, hrest⟩ := Recorded.append hrecorded
      cases hds with
      | @cons _ _ d' _ _ hd hds =>
          have halike := FunctionDecl.resolvedAlike d
            { setting with body := Resolve.methodKind d.name } hold hnew hd h
            hnames.1 hfirst
          have hall := FunctionDecl.resolvedAlikeAll ds setting hold hnew hds h
            hnames.2 hrest
          refine ⟨fun hobeys => ⟨?_, hall.keeps hobeys.2⟩, (halike.and hall).records_eq⟩
          rw [hd.name_eq]
          exact halike.keeps hobeys.1

end

end Trees

end ScopedScript
