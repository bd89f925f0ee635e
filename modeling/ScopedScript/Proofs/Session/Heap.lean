import ScopedScript.Proofs.Session.Record

/-!
# Chains end

Scopes, classes and functions refer to one another, and objects may hold any of them, so there are
cycles among values. Yet each scope is enclosed by one that was made before it and each class
inherits from one that was made before it, and neither is ever changed. So the search for a name and
the search for a method come to an end.
-/

namespace ScopedScript

/-- A value that a state holds. -/
inductive State.Holds (s : State) : Value → Prop where
  | binding {e : EnvId} {x : String} {v : Value} : s.store.binding? e x = some v → Holds s v
  | field {o : ObjectId} {x : String} {v : Value} : s.store.field? o x = some v → Holds s v
  | last : Holds s s.lastValue

/-- A class has a method, its own or an inherited one. -/
def Class.HasMethod (c : Class) (f : Function) : Prop :=
  ∃ layer ∈ c.own :: c.inherited, ∃ x, layer.methods.get? x = some f

/-- A class was made after the one that it inherits from, and so on: the numbers that were given out
to them one after the other descend. -/
def Class.Descends (c : Class) : Prop :=
  (c.own :: c.inherited).Pairwise fun layer inherited => inherited.id < layer.id

/-- The scopes and the classes of a state form chains that end. Functions and classes are those that
have ever been made, whether they can still be got at or not; what a state holds is among them. -/
structure State.HeapFormed (h : List Moment) (s : State) : Prop where
  outermost : s.store.HasEnv s.globals ∧ s.store.enclosing? s.globals = none
  earlier : ∀ e outer, s.store.enclosing? e = some outer → outer < e
  chains : ∀ e, s.store.HasEnv e → ∃ d ≤ e, s.store.ancestor? e d = some s.globals
  current : s.store.HasEnv s.current
  functions : ∀ f : Function, f.From h → s.store.HasEnv f.closure
  methods : ∀ (c : Class) (f : Function), c.From h → c.HasMethod f → s.store.HasEnv f.closure
  classes : ∀ c : Class, c.From h → c.own.id < s.nextIdentity ∧ c.Descends
  held : ∀ v, s.Holds v → v.From h
  searches : ∀ e x fuel, s.store.HasEnv e → e < fuel →
    s.store.binderWithin? x fuel e = s.store.binder? e x

/-- In a later state the same scope is the global one, and each scope is still there and is enclosed
by the same one. -/
structure State.KeepsLinks (s s' : State) : Prop where
  globals_eq : s'.globals = s.globals
  hasEnv : ∀ e, s.store.HasEnv e → s'.store.HasEnv e
  enclosing_eq : ∀ e, s.store.HasEnv e → s'.store.enclosing? e = s.store.enclosing? e

namespace Chronicle

variable {n : NodeId} {h : List Moment} {s : State} {e : EnvId} {c : Class}

theorem ordered (hc : Chronicle n h s) : s.store.Ordered := by
  intro e outer houter
  have hne : e ≠ s.globals := by
    rintro rfl
    rw [hc.grounded.outermost] at houter
    cases houter
  obtain ⟨outer', houter', hlt⟩ := hc.rooted (Store.hasEnv_of_enclosing? houter) hne
  rw [houter] at houter'
  cases houter'
  exact hlt

/-- The chain of a scope ends at the global one. -/
theorem exists_ancestor?_eq_globals (hc : Chronicle n h s) (he : s.store.HasEnv e) :
    ∃ d ≤ e, s.store.ancestor? e d = some s.globals := by
  induction e using Nat.strongRecOn with
  | ind e ih =>
    by_cases hglobals : e = s.globals
    · exact ⟨0, Nat.zero_le e, congrArg some hglobals⟩
    · obtain ⟨outer, houter, hlt⟩ := hc.rooted he hglobals
      obtain ⟨d, hle, hancestor⟩ := ih outer hlt (Nat.lt_trans hlt he)
      refine ⟨d + 1, Nat.le_trans (Nat.succ_le_succ hle) hlt, ?_⟩
      unfold Store.ancestor?
      rw [houter]
      exact hancestor

/-- Each class on record was made after those that it inherits from. -/
theorem descends (hc : Chronicle n h s) (hfrom : c.From h) : c.Descends := by
  induction hlength : c.inherited.length using Nat.strongRecOn generalizing c with
  | ind length ih =>
    obtain ⟨d, parent, hderives⟩ := hfrom
    have hderived := hc.derived hderives
    unfold Class.Descends
    cases parent with
    | none =>
        have hinherited : c.inherited = [] := by
          rw [hderived.extending]
          rfl
        rw [hinherited]
        exact List.pairwise_singleton _ _
    | some superclass =>
        have hinherited : c.inherited = superclass.own :: superclass.inherited := by
          rw [hderived.extending]
          rfl
        obtain ⟨hsuper, hlt⟩ := hderived.parent_from superclass rfl
        rw [hinherited] at hlength ⊢
        have hdescends : superclass.Descends :=
          ih _ (by rw [← hlength]; exact Nat.lt_succ_self _) hsuper rfl
        refine List.pairwise_cons.mpr ⟨?_, hdescends⟩
        refine List.forall_mem_cons.mpr ⟨hlt, fun layer hlayer => ?_⟩
        exact Nat.lt_trans ((List.pairwise_cons.mp hdescends).1 layer hlayer) hlt

theorem heapFormed (hc : Chronicle n h s) : s.HeapFormed h where
  outermost := ⟨hc.grounded.hasEnv, hc.grounded.outermost⟩
  earlier := hc.ordered
  chains _ := hc.exists_ancestor?_eq_globals
  current := hc.current
  functions _ hf := (hc.exists_readyIn hf).1
  methods c f hfrom hf := by
    obtain ⟨layer, hlayer, x, hx⟩ := hf
    obtain ⟨d, parent, c', hderives, rfl⟩ := hc.exists_own_eq hfrom hlayer
    exact ((hc.derived hderives).methods f ⟨x, hx⟩).hasEnv
  classes c hfrom := by
    obtain ⟨d, parent, hderives⟩ := id hfrom
    exact ⟨(hc.derived hderives).id_lt, hc.descends hfrom⟩
  held v hv := by
    cases hv with
    | binding hv => exact hc.binding hv
    | field hv => exact hc.field hv
    | last => exact hc.last
  searches _ _ _ _ hfuel := hc.ordered.binderWithin?_eq hfuel

theorem keepsLinks (hc : Chronicle n h s) {m : Moment} (hm : m ∈ h) : m.state.KeepsLinks s where
  globals_eq := (hc.later m hm).2.symm
  hasEnv _ := (hc.later m hm).1.hasEnv
  enclosing_eq _ := (hc.later m hm).1.enclosing

/-- A class was on record before one that inherits from it. -/
theorem from_of_derives {d : ClassDeclaration} {superclass c : Class}
    (hc : Chronicle n (h ++ [⟨.derives d (some superclass) c, s⟩]) s) : superclass.From h := by
  have hderives : Happened (h ++ [⟨.derives d (some superclass) c, s⟩])
      (.derives d (some superclass) c) := ⟨_, List.mem_append_right h List.mem_cons_self, rfl⟩
  obtain ⟨⟨d', parent, m, hm, hevent⟩, hlt⟩ :=
    (hc.derived hderives).parent_from superclass rfl
  rcases List.mem_append.mp hm with hm | hm
  · exact ⟨d', parent, m, hm, hevent⟩
  · rw [List.mem_singleton.mp hm] at hevent
    cases hevent
    exact (Nat.lt_irrefl _ hlt).elim

end Chronicle

namespace Session

/-- At each moment of a run in a session, whatever has happened before, and between any two runs,
chains end: each scope is enclosed by an earlier one and is so for good, all chains lead to the one
global scope, and each class inherits from one that was made before it. So a search for a name or
for a method comes to its end. What is called and passed as an argument is among the values of which
this is known, and so is whatever an expression has for its value. -/
theorem heapFormed_of_occurs :
    (∀ h m, Occurs h m → m.state.HeapFormed (h ++ [m]) ∧
      (∀ m' ∈ h, m'.state.KeepsLinks m.state) ∧
      (∀ callee arguments line, m.event = .calls callee arguments line →
        ∀ v ∈ callee :: arguments, v.From (h ++ [m])) ∧
      (∀ e fuel v s, m.event = .evaluates e → Eval.eval fuel e m.state = .ok v s →
        ∃ h', h ++ [m] ⊆ h' ∧ v.From h' ∧ s.HeapFormed h') ∧
      ∀ d superclass c, m.event = .derives d (some superclass) c → superclass.From h) ∧
    ∀ h s, Past h s → s.state.HeapFormed h ∧ ∀ m ∈ h, m.state.KeepsLinks s.state := by
  refine ⟨fun h m hm => ?_, fun h s hpast => ?_⟩
  · obtain ⟨n, hc⟩ := hm.exists_chronicle
    have hholds := hc.holds m (List.mem_append_right h List.mem_cons_self)
    refine ⟨hc.heapFormed, fun m' hm' => hc.keepsLinks (List.mem_append_left _ hm'), ?_, ?_, ?_⟩
    · intro callee arguments line hevent
      rw [hevent] at hholds
      exact List.forall_mem_cons.mpr hholds
    · intro e fuel v s hevent hok
      rw [hevent] at hholds
      obtain ⟨setting, Γ, hstands, hcode⟩ := hholds
      obtain ⟨hc', hfrom⟩ := ((Eval.tellsWith n fuel).eval e hc hstands hcode).ends.ok hok
      exact ⟨_, List.subset_append_left _ _, hfrom, hc'.heapFormed⟩
    · obtain ⟨event, s⟩ := m
      rintro d superclass c rfl
      exact hc.from_of_derives
  · exact ⟨hpast.chronicled.heapFormed, fun m hm => hpast.chronicled.keepsLinks hm⟩

/-- For example, when a class is made that inherits from another one, and then when one of its
objects is asked for, and between two source texts. -/
theorem heapFormed_of_occurs_inheriting :
    (∃ h m d superclass c, Occurs h m ∧ m.event = .derives d (some superclass) c ∧
      m.state.HeapFormed (h ++ [m]) ∧ superclass.From h) ∧
    (∃ h m c, Occurs h m ∧ m.event = .calls (.cls c) [] 1 ∧ c.From (h ++ [m])) ∧
    (initial (.ofClock fun _ => 0) .accepting).state.HeapFormed [] := by
  have hderives : ∃ m d superclass c,
      (firstMoments 19 "class A {} class B < A {} B();")[3]? = some m ∧
      m.event = .derives d (some superclass) c := ⟨_, _, _, _, by cbv, by cbv⟩
  have hcalls : ∃ m c, (firstMoments 19 "class A {} class B < A {} B();")[7]? = some m ∧
      m.event = .calls (.cls c) [] 1 :=
    ⟨_, _, by cbv, by cbv⟩
  refine ⟨?_, ?_, (heapFormed_of_occurs.2 [] _ .initial).1⟩
  · obtain ⟨m, d, superclass, c, hmoment, hevent⟩ := hderives
    have hm := occurs_of_getElem? hmoment
    obtain ⟨hformed, _, _, _, hfrom⟩ := heapFormed_of_occurs.1 _ m hm
    exact ⟨_, m, d, superclass, c, hm, hevent, hformed, hfrom d superclass c hevent⟩
  · obtain ⟨m, c, hmoment, hevent⟩ := hcalls
    have hm := occurs_of_getElem? hmoment
    have hfrom := (heapFormed_of_occurs.1 _ m hm).2.2.1 (.cls c) [] 1 hevent (.cls c)
      List.mem_cons_self
    exact ⟨_, m, c, hm, hevent, hfrom⟩

end Session

end ScopedScript
