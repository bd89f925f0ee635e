import ScopedScript.Proofs.Session.Receivers

/-!
# Superclasses

A method knows the class that its own class inherits from by the scope that was made when the class
was declared. So it finds methods of that class, whatever the class of its object is and whatever
the name of the superclass means by then.
-/

namespace ScopedScript

theorem Store.ancestor?_succ (st : Store) (e : EnvId) (d : Nat) :
    st.ancestor? e (d + 1) = (st.ancestor? e d).bind st.enclosing? := by
  induction d generalizing e with
  | zero => simp [Store.ancestor?]
  | succ d ih =>
      rw [Store.ancestor?, Store.ancestor?]
      cases st.enclosing? e with
      | none => rfl
      | some outer => exact ih outer

namespace Chronicle

variable {n : NodeId} {h : List Moment} {s : State} {f method : Function} {o : Object}
variable {scope : EnvId} {d : Nat} {declaration : ClassDeclaration} {superclass c : Class}

/-- In a scope in which a method is executed, the class that its class inherits from is found just
outside the scope of the method. -/
theorem lookupAt_superclass (hc : Chronicle n h s) (ha : Activation h f scope d)
    (hbinds : Happened h (.binds method f o))
    (hderives : Happened h (.derives declaration (some superclass) c))
    (hmethod : c.Declares method) :
    s.store.lookupAt scope (d + 1) superclassWord = .ok (.cls superclass) := by
  have hsuper := ((hc.derived hderives).methods method hmethod).inherits superclass rfl
  unfold Store.lookupAt
  rw [Store.ancestor?_succ, (hc.ancestor?_of_activation ha).1, Option.bind_some,
    (hc.boundTo hbinds).enclosing]
  simp only [hsuper]

/-- What a class finds under a name is its last declaration of it, or else what the class that it
inherits from finds. -/
theorem findMethod?_of_derives {parent : Option Class} (hc : Chronicle n h s)
    (hderives : Happened h (.derives declaration parent c)) (x : String) :
    match lastNamed? declaration.methods x with
    | some d => ∃ found, c.findMethod? x = some found ∧ found.declaration = d ∧ c.Declares found
    | none => c.findMethod? x = parent.bind fun superclass => superclass.findMethod? x := by
  have hderived := hc.derived hderives
  have hlast := hderived.last x
  have hfind : c.findMethod? x =
      (c.own.methods.get? x).or (parent.bind fun superclass => superclass.findMethod? x) := by
    rw [← Class.findMethod?_extending, ← hderived.extending]
  cases hown : c.own.methods.get? x with
  | none =>
      rw [hown] at hlast hfind
      rw [← hlast]
      exact hfind
  | some found =>
      rw [hown] at hlast hfind
      rw [← hlast]
      exact ⟨found, hfind, rfl, x, hown⟩

end Chronicle

namespace Eval

/-- The superclass of a class declaration is the class that its name means. -/
theorem parentOf_eq_ok {ref : Reference} {parent : Option Class} {s : State}
    (h : parentOf (some ref) s = .ok parent s) :
    ∃ c, read ref.id ref.name s = .ok (.cls c) s ∧ parent = some c := by
  obtain ⟨c, hsuperclass, heq⟩ := Run.map_eq_ok.mp h
  obtain ⟨v, s', hread, hv⟩ := Run.bind_eq_ok.mp hsuperclass
  cases v with
  | cls c' =>
      cases hv
      exact ⟨c, hread, heq.symm⟩
  | _ => cases hv

end Eval

namespace Chronicle

/-- A class on record was made by a declaration that had been begun. It inherits from another one if
the declaration names it, and this is what the name meant then. -/
theorem parent_of_derives {n : NodeId} {h : List Moment} {s : State}
    {declaration : ClassDeclaration} {parent : Option Class} {c : Class} (hc : Chronicle n h s)
    (hderives : Happened h (.derives declaration parent c)) :
    ⟨.executes declaration.stmt, declaration.state⟩ ∈ h ∧
      match declaration.superclass with
      | some ref => ∃ superclass, parent = some superclass ∧ superclass.From h ∧
          Eval.read ref.id ref.name declaration.state =
            .ok (.cls superclass) declaration.state
      | none => parent = none := by
  have hderived := hc.derived hderives
  have hparent := hderived.parent_eq
  refine ⟨hderived.executed, ?_⟩
  cases href : declaration.superclass with
  | none =>
      rw [href] at hparent
      cases hparent
      rfl
  | some ref =>
      rw [href] at hparent
      obtain ⟨superclass, hread, rfl⟩ := Eval.parentOf_eq_ok hparent
      exact ⟨superclass, rfl, (hderived.parent_from superclass rfl).1, hread⟩

end Chronicle

namespace Session

variable {h : List Moment} {m : Moment}

/-- Where a method of the superclass is looked up, a method that this stands in is executed, and its
class inherits from another one. -/
theorem Occurs.exists_subclass {id : NodeId} {line : Nat} {name : Name} (hm : Occurs h m)
    (hevent : m.event = .evaluates (.inherited id line name)) :
    ∃ method f o d, Happened h (.binds method f o) ∧ Activation h f m.state.current d ∧
      ⟨id, .inherited, ⟨name.text, line⟩⟩ ∈ FunctionDecl.direct method.declaration ∧
      m.state.distances[id]? = some (d + 1) ∧
      ∃ declaration c superclass, Happened h (.derives declaration (some superclass) c) ∧
        c.Declares method := by
  obtain ⟨_, setting, Γ, hstands, hkind, hrecorded⟩ := hm.exists_stands hevent
  replace hkind : setting.classKind = .subclass := hkind
  obtain ⟨method, f, o, d, hbinds, hactivation, hdirect, _, hsubclass⟩ :=
    hstands fun houtside => nomatch hkind.symm.trans houtside
  obtain ⟨hlocate, hclass⟩ := hsubclass hkind
  refine ⟨method, f, o, d, hbinds, hactivation, hdirect List.mem_cons_self, ?_, hclass⟩
  rw [← hlocate]
  exact (Recorded.cons hrecorded).1.2

/-- Where a method of the superclass is looked up, the superclass that the class of a method on
record inherits from is found, with the object that the method is executed for. -/
theorem Occurs.inheritedMethod_eq {id : NodeId} {line : Nat} {name : Name} {method f : Function}
    {o : Object} {d : Nat} {declaration : ClassDeclaration} {superclass c : Class}
    (hm : Occurs h m) (hevent : m.event = .evaluates (.inherited id line name))
    (hbinds : Happened h (.binds method f o)) (ha : Activation h f m.state.current d)
    (hderives : Happened h (.derives declaration (some superclass) c))
    (hmethod : c.Declares method) :
    Eval.inheritedMethod id line name m.state = (match superclass.findMethod? name.text with
      | some found => do return Value.function (← Eval.bindMethod found o)
      | none => Eval.fail (.undefinedProperty name.text) name.line : Eval Value) m.state := by
  obtain ⟨_, _, _, d', hbinds', hactivation', _, hdistance, _⟩ := hm.exists_subclass hevent
  obtain ⟨n, hc⟩ := hm.exists_chronicle
  have hsub : h ⊆ h ++ [m] := List.subset_append_left _ _
  have hbinds := hbinds.mono hsub
  have hactivation := ha.mono hsub
  obtain ⟨rfl, _⟩ := hc.closure_unique hactivation hbinds (hactivation'.mono hsub)
    (hbinds'.mono hsub)
  exact Eval.inheritedMethod_of_lookups hdistance
    (hc.lookupAt_superclass hactivation hbinds (hderives.mono hsub) hmethod)
    (hc.lookupAt_receiver hactivation hbinds)

/-- Dispatch to the superclass. Wherever `super.method` is evaluated, a method that it stands in
directly, perhaps in blocks and functions, is being executed for an object, and the class that
declares this method was made by a declaration with a superclass. What is given is the method that
is found from the superclass on, made a function for the same object; if none is found, that is the
fault, and there is no other. Here the superclass is the class that its name meant when the
declaration was executed, and what is found from a class on under a name is its last declaration of
the name, or else what is found from its own superclass on. -/
theorem superclass_dispatch :
    (∀ h m id line name, Occurs h m → m.event = .evaluates (.inherited id line name) →
      (∃ method f o d, Happened h (.binds method f o) ∧ Activation h f m.state.current d ∧
        ⟨id, .inherited, ⟨name.text, line⟩⟩ ∈ FunctionDecl.direct method.declaration ∧
        ∃ declaration c superclass, Happened h (.derives declaration (some superclass) c) ∧
          c.Declares method) ∧
      ∀ method f o d declaration superclass c, Happened h (.binds method f o) →
        Activation h f m.state.current d →
        Happened h (.derives declaration (some superclass) c) → c.Declares method → ∀ fuel,
        match superclass.findMethod? name.text with
        | some found => ∃ g s, Eval.bindMethod found o m.state = .ok g s ∧
            Eval.eval (fuel + 1) (.inherited id line name) m.state = .ok (.function g) s
        | none => Eval.eval (fuel + 1) (.inherited id line name) m.state =
            .fault (.runtime (.undefinedProperty name.text) name.line) m.state) ∧
    ∀ h m declaration parent c, Occurs h m →
      Happened (h ++ [m]) (.derives declaration parent c) →
      ⟨.executes declaration.stmt, declaration.state⟩ ∈ h ++ [m] ∧
      (match declaration.superclass with
        | some ref => ∃ superclass, parent = some superclass ∧ superclass.From (h ++ [m]) ∧
            ∀ fuel, Eval.eval (fuel + 1) (.name ref) declaration.state =
              .ok (.cls superclass) declaration.state
        | none => parent = none) ∧
      ∀ x, match lastNamed? declaration.methods x with
        | some d => ∃ found, c.findMethod? x = some found ∧ found.declaration = d ∧
            c.Declares found
        | none => c.findMethod? x = parent.bind fun superclass => superclass.findMethod? x := by
  refine ⟨fun h m id line name hm hevent => ⟨?_, ?_⟩,
    fun h m declaration parent c hm hderives => ?_⟩
  · obtain ⟨method, f, o, d, hbinds, hactivation, hdirect, _, hderives⟩ := hm.exists_subclass hevent
    exact ⟨method, f, o, d, hbinds, hactivation, hdirect, hderives⟩
  · intro method f o d declaration superclass c hbinds hactivation hderives hmethod fuel
    have hlookup := hm.inheritedMethod_eq hevent hbinds hactivation hderives hmethod
    simp only [Eval.eval]
    cases hfound : superclass.findMethod? name.text with
    | none =>
        rw [hfound] at hlookup
        exact hlookup
    | some found =>
        rw [hfound] at hlookup
        exact ⟨_, _, rfl, hlookup⟩
  · obtain ⟨n, hc⟩ := hm.exists_chronicle
    obtain ⟨hexecuted, hparent⟩ := hc.parent_of_derives hderives
    refine ⟨hexecuted, ?_, hc.findMethod?_of_derives hderives⟩
    cases href : declaration.superclass with
    | none =>
        rw [href] at hparent
        exact hparent
    | some ref =>
        rw [href] at hparent
        obtain ⟨superclass, hsome, hfrom, hread⟩ := hparent
        exact ⟨superclass, hsome, hfrom, fun fuel => hread⟩

/-- For example, in a method that overrides the one that it gets at. -/
theorem superclass_dispatch_in_override :
    ∃ h m, Occurs h m ∧ m.event = .evaluates (.inherited 2 1 ⟨"m", 1⟩) ∧
      ∃ (declaration : ClassDeclaration) (ref : Reference) (superclass : Class)
        (found : Function) (o : Object) (g : Function) (s : State),
        declaration.superclass = some ref ∧
        Eval.eval 1 (.name ref) declaration.state =
          .ok (.cls superclass) declaration.state ∧
        superclass.findMethod? "m" = some found ∧ Eval.bindMethod found o m.state = .ok g s ∧
        Eval.eval 1 (.inherited 2 1 ⟨"m", 1⟩) m.state = .ok (.function g) s := by
  have hmoment : ∃ m, (firstMoments 19
      "class A { m() { this; } } class B < A { m() { super.m; } } B().m();")[15]? = some m ∧
      m.event = .evaluates (.inherited 2 1 ⟨"m", 1⟩) ∧
      ∃ g s, Eval.eval 1 (.inherited 2 1 ⟨"m", 1⟩) m.state = .ok (.function g) s :=
    ⟨_, by cbv, by cbv, _, _, by cbv⟩
  obtain ⟨m, hmoment, hevent, g', s', hok⟩ := hmoment
  have hm := occurs_of_getElem? hmoment
  obtain ⟨⟨method, f, o, d, hbinds, hactivation, _, hclass⟩, hdispatch⟩ :=
    superclass_dispatch.1 _ m 2 1 ⟨"m", 1⟩ hm hevent
  obtain ⟨declaration, c, superclass, hderives, hmethod⟩ := hclass
  have hyields := hdispatch method f o d declaration superclass c hbinds hactivation hderives
    hmethod 0
  obtain ⟨_, hparent, _⟩ := superclass_dispatch.2 _ m declaration (some superclass) c hm
    (hderives.mono (List.subset_append_left _ _))
  refine ⟨_, m, hm, hevent, declaration, ?_⟩
  cases href : declaration.superclass with
  | none =>
      rw [href] at hparent
      cases hparent
  | some ref =>
      rw [href] at hparent
      obtain ⟨_, ⟨⟩, _, hread⟩ := hparent
      cases hfound : superclass.findMethod? "m" with
      | none =>
          rw [hfound] at hyields
          rw [hyields] at hok
          cases hok
      | some found =>
          rw [hfound] at hyields
          obtain ⟨g, s, hbind, heval⟩ := hyields
          exact ⟨ref, superclass, found, o, g, s, rfl, hread 0, hfound, hbind, heval⟩

end Session

end ScopedScript
