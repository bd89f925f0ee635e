import ScopedScript.Proofs.Session.Record

/-!
# Receivers

A method is executed for the object that it was bound to: from each scope in which its body or a
function that was declared there is executed, the nearest scope that binds `this` is the one that
was made when the method was bound.
-/

namespace ScopedScript

theorem Happened.of_append {h : List Moment} {m : Moment} {event : Event}
    (hevent : Happened (h ++ [m]) event) (hne : m.event ≠ event) : Happened h event := by
  obtain ⟨m', hm', heq⟩ := hevent
  rcases List.mem_append.mp hm' with hm' | hm'
  · exact ⟨m', hm', heq⟩
  · rw [List.mem_singleton.mp hm'] at heq
    exact (hne heq).elim

/-- Where the body of a method is executed does not change when an expression is evaluated. -/
theorem Activation.of_append {h : List Moment} {m : Moment} {f : Function} {scope : EnvId} {d : Nat}
    {e : Expr} (ha : Activation (h ++ [m]) f scope d) (hm : m.event = .evaluates e) :
    Activation h f scope d := by
  induction ha with
  | call henters => exact .call (henters.of_append fun heq => nomatch hm.symm.trans heq)
  | block _ hopens ih => exact .block ih (hopens.of_append fun heq => nomatch hm.symm.trans heq)
  | function _ henters ih =>
      exact .function ih (henters.of_append fun heq => nomatch hm.symm.trans heq)

theorem Stands.of_append {h : List Moment} {m : Moment} {setting : Setting} {Γ : Scopes}
    {os : List Occurrence} {scope : EnvId} {e : Expr} (hs : Stands (h ++ [m]) setting Γ os scope)
    (hm : m.event = .evaluates e) : Stands h setting Γ os scope := by
  intro hkind
  obtain ⟨method, f, o, d, hbinds, hactivation, hdirect, hlocate, hsubclass⟩ := hs hkind
  refine ⟨method, f, o, d, hbinds.of_append fun heq => (nomatch hm.symm.trans heq),
    hactivation.of_append hm, hdirect, hlocate, fun hkind => ?_⟩
  obtain ⟨hsuper, declaration, c, superclass, hderives, hmethod⟩ := hsubclass hkind
  exact ⟨hsuper, declaration, c, superclass,
    hderives.of_append fun heq => (nomatch hm.symm.trans heq), hmethod⟩

namespace Chronicle

variable {n : NodeId} {h : List Moment} {s : State} {f f' method method' : Function}
variable {o o' : Object} {scope : EnvId} {d d' : Nat}

theorem plainIn_of_opens {outer inner : EnvId} (hc : Chronicle n h s)
    (hopens : Happened h (.opens outer inner)) : s.store.PlainIn outer inner := by
  obtain ⟨_, hholds⟩ := hc.happened hopens
  exact hholds

theorem plainIn_of_enters (hc : Chronicle n h s) (henters : Happened h (.enters f scope)) :
    s.store.PlainIn f.closure scope := by
  obtain ⟨_, hholds⟩ := hc.happened henters
  exact hholds

/-- The scopes between that of a method and one in which it is executed bind ordinary names only. -/
theorem ancestor?_of_activation (hc : Chronicle n h s) (ha : Activation h f scope d) :
    s.store.ancestor? scope d = some f.closure ∧
      ∀ i < d, ∀ t, s.store.ancestor? scope i = some t → ∀ x, s.store.Binds t x → Ordinary x := by
  have hstep {outer inner : EnvId} {d : Nat} (hinner : s.store.PlainIn outer inner)
      (houter : s.store.ancestor? outer d = some f.closure ∧ ∀ i < d, ∀ t,
        s.store.ancestor? outer i = some t → ∀ x, s.store.Binds t x → Ordinary x) :
      s.store.ancestor? inner (d + 1) = some f.closure ∧ ∀ i < d + 1, ∀ t,
        s.store.ancestor? inner i = some t → ∀ x, s.store.Binds t x → Ordinary x := by
    have hup (i : Nat) : s.store.ancestor? inner (i + 1) = s.store.ancestor? outer i := by
      rw [Store.ancestor?, hinner.enclosing]
      rfl
    refine ⟨(hup d).trans houter.1, fun i hi t ht => ?_⟩
    cases i with
    | zero =>
        cases ht
        exact hinner.plain
    | succ i => exact houter.2 i (Nat.lt_of_succ_lt_succ hi) t ((hup i).symm.trans ht)
  induction ha with
  | call henters =>
      exact hstep (hc.plainIn_of_enters henters) ⟨rfl, fun i hi => (Nat.not_lt_zero i hi).elim⟩
  | block _ hopens ih => exact hstep (hc.plainIn_of_opens hopens) ih
  | function _ henters ih => exact hstep (hc.plainIn_of_enters henters) ih

/-- In one scope, the methods that are executed are for one object, which lies at one distance. -/
theorem closure_unique (hc : Chronicle n h s) (ha : Activation h f scope d)
    (hbinds : Happened h (.binds method f o)) (ha' : Activation h f' scope d')
    (hbinds' : Happened h (.binds method' f' o')) : d' = d ∧ f'.closure = f.closure := by
  have hreceiver {g g' method : Function} {o : Object} {i j : Nat}
      (hbinds : Happened h (.binds method g o)) (ha : Activation h g scope i)
      (ha' : Activation h g' scope j) : ¬i < j := fun hlt =>
    not_ordinary_receiverWord ((hc.ancestor?_of_activation ha').2 i hlt _
      (hc.ancestor?_of_activation ha).1 _
      (Store.binds_iff.mpr ⟨_, (hc.boundTo hbinds).receiver⟩))
  have heq : d' = d := by
    have hle := hreceiver hbinds ha ha'
    have hle' := hreceiver hbinds' ha' ha
    omega
  subst heq
  have hancestor := (hc.ancestor?_of_activation ha).1
  rw [(hc.ancestor?_of_activation ha').1] at hancestor
  exact ⟨rfl, Option.some.inj hancestor⟩

/-- In a scope in which a method is executed, its object is found at the distance of the scope of
the method. -/
theorem lookupAt_receiver (hc : Chronicle n h s) (ha : Activation h f scope d)
    (hbinds : Happened h (.binds method f o)) :
    s.store.lookupAt scope d receiverWord = .ok (.object o) := by
  unfold Store.lookupAt
  rw [(hc.ancestor?_of_activation ha).1]
  simp only [(hc.boundTo hbinds).receiver]

/-- A function that was made of a method is an initializer if it has the name of one. -/
theorem isInitializer_of_name (hc : Chronicle n h s) (hbinds : Happened h (.binds method f o))
    (hname : f.name = initializerName) : f.isInitializer = true := by
  have hbound := hc.boundTo hbinds
  obtain ⟨declaration, parent, c, hderives, hmethod⟩ := hbound.method
  have hinitializer := ((hc.derived hderives).methods method hmethod).initializer
  rw [hbound.made] at hname ⊢
  rw [hinitializer]
  exact beq_iff_eq.mpr hname

end Chronicle

namespace Eval

variable {s s' : State} {v : Value} {line : Nat}

/-- A reference whose distance is known is looked up there. -/
theorem read_of_lookupAt {id : NodeId} {name : Name} {d : Nat}
    (hdistance : s.distances[id]? = some d)
    (hv : s.store.lookupAt s.current d name.text = .ok v) : read id name s = .ok v s := by
  unfold read
  rw [Run.bind_of_ok (Run.get_apply s), hdistance]
  exact readAt_of_lookupAt hv

/-- A call of a class that ends well gives the object that was made for it. -/
theorem call_cls_eq_ok {fuel : Nat} {c : Class} {arguments : List Value}
    (hcall : call fuel (.cls c) arguments line s = .ok v s') :
    ∃ o, v = .object o ∧ o.cls = c ∧ o.id = s.store.nextObject := by
  cases fuel with
  | zero => cases hcall
  | succ fuel =>
      simp only [call] at hcall
      obtain ⟨_, s₁, harity, hmake⟩ := Run.bind_eq_ok.mp hcall
      obtain rfl : s₁ = s := by
        unfold checkArity at harity
        split at harity
        · cases harity
          rfl
        · cases harity
      obtain ⟨o, s₂, hobject, hinit⟩ := Run.bind_eq_ok.mp hmake
      cases hobject
      cases hmethod : c.findMethod? initializerName with
      | none =>
          rw [hmethod] at hinit
          cases hinit
          exact ⟨_, rfl, rfl, rfl⟩
      | some method =>
          rw [hmethod] at hinit
          obtain ⟨_, _, _, hinvoke⟩ := Run.bind_eq_ok.mp hinit
          obtain ⟨_, _, _, hend⟩ := Run.bind_eq_ok.mp hinvoke
          cases hend
          exact ⟨_, rfl, rfl, rfl⟩

end Eval

namespace Session

variable {h : List Moment} {m : Moment}

/-- Where an expression is evaluated, it is known which methods it stands in and what is found for
its references. -/
theorem Occurs.exists_stands {e : Expr} (hm : Occurs h m) (hevent : m.event = .evaluates e) :
    ∃ n setting Γ, Stands h setting Γ e.occurrences m.state.current ∧
      Fits n m.state.distances (e.Obeys setting Γ) (e.records Γ) := by
  obtain ⟨n, hc⟩ := hm.exists_chronicle
  have hholds := hc.holds m (List.mem_append_right h List.mem_cons_self)
  rw [hevent] at hholds
  obtain ⟨setting, Γ, hstands, hcode⟩ := hholds
  exact ⟨n, setting, Γ, hstands.of_append hevent, hcode.fits⟩

/-- Where `this` is evaluated, a method that it stands in is executed, and it has the distance of
the scope of the method. -/
theorem Occurs.exists_activation {id : NodeId} {line : Nat} (hm : Occurs h m)
    (hevent : m.event = .evaluates (.receiver id line)) :
    ∃ method f o d, Happened h (.binds method f o) ∧ Activation h f m.state.current d ∧
      ⟨id, .receiver, ⟨receiverWord, line⟩⟩ ∈ FunctionDecl.direct method.declaration ∧
      m.state.distances[id]? = some d := by
  obtain ⟨_, setting, Γ, hstands, hkind, hrecorded⟩ := hm.exists_stands hevent
  obtain ⟨method, f, o, d, hbinds, hactivation, hdirect, hlocate, _⟩ := hstands hkind
  refine ⟨method, f, o, d, hbinds, hactivation, hdirect List.mem_cons_self, ?_⟩
  rw [← hlocate]
  exact (Recorded.cons hrecorded).1.2

/-- Receivers are fixed when methods are bound. Wherever `this` is evaluated, a method that it
stands in directly, perhaps in blocks and functions, is being executed there for an object: in a
call of a function that was made of the method for the object, or in one of a function that was
declared in such a call, however much later. What `this` gives is that object, whatever else the
method was bound to meanwhile. A call of an initializer that was made for an object gives that
object if it does not fail, and a call of a class that does not fail gives an object of that class
that there was not before. -/
theorem receivers_fixed :
    (∀ h m id line, Occurs h m → m.event = .evaluates (.receiver id line) →
      (∃ method f o d, Happened h (.binds method f o) ∧ Activation h f m.state.current d ∧
        ⟨id, .receiver, ⟨receiverWord, line⟩⟩ ∈ FunctionDecl.direct method.declaration) ∧
      ∀ method f o d, Happened h (.binds method f o) → Activation h f m.state.current d →
        ∀ fuel, Eval.eval (fuel + 1) (.receiver id line) m.state = .ok (.object o) m.state) ∧
    (∀ h m method f o arguments line, Occurs h m →
      m.event = .calls (.function f) arguments line → Happened h (.binds method f o) →
      f.name = initializerName → ∀ fuel v s,
        Eval.call fuel (.function f) arguments line m.state = .ok v s → v = .object o) ∧
    ∀ h m c arguments line, Occurs h m → m.event = .calls (.cls c) arguments line →
      ∀ fuel v s, Eval.call fuel (.cls c) arguments line m.state = .ok v s →
        ∃ o, v = .object o ∧ o.cls = c ∧ ¬m.state.store.HasObject o.id ∧ s.store.HasObject o.id ∧
          ∀ o', Happened h (.creates o') → o'.id ≠ o.id := by
  refine ⟨fun h m id line hm hevent => ?_, fun h m method f o arguments line hm hevent hbinds hname
    fuel v s hcall => ?_, fun h m c arguments line hm hevent fuel v s hcall => ?_⟩
  · obtain ⟨method, f, o, d, hbinds, hactivation, hdirect, hdistance⟩ :=
      hm.exists_activation hevent
    refine ⟨⟨method, f, o, d, hbinds, hactivation, hdirect⟩, ?_⟩
    intro method' f' o' d' hbinds' hactivation' fuel
    obtain ⟨n, hc⟩ := hm.exists_chronicle
    have hsub : h ⊆ h ++ [m] := List.subset_append_left _ _
    obtain ⟨rfl, _⟩ := hc.closure_unique (hactivation.mono hsub) (hbinds.mono hsub)
      (hactivation'.mono hsub) (hbinds'.mono hsub)
    exact Eval.read_of_lookupAt hdistance
      (hc.lookupAt_receiver (hactivation'.mono hsub) (hbinds'.mono hsub))
  · obtain ⟨n, hc⟩ := hm.exists_chronicle
    have hsub : h ⊆ h ++ [m] := List.subset_append_left _ _
    have hholds := hc.holds m (List.mem_append_right h List.mem_cons_self)
    rw [hevent] at hholds
    have htells := (Eval.tellsWith n fuel).call (.function f) arguments line hc hholds.1 hholds.2
    obtain ⟨_, _, hyields⟩ := htells.ends.ok hcall
    refine hyields f rfl ?_ method o (hbinds.mono fun _ hm' => List.mem_append_left _ (hsub hm'))
    exact hc.isInitializer_of_name (hbinds.mono hsub) hname
  · obtain ⟨n, hc⟩ := hm.exists_chronicle
    have hsub : h ⊆ h ++ [m] := List.subset_append_left _ _
    have hholds := hc.holds m (List.mem_append_right h List.mem_cons_self)
    rw [hevent] at hholds
    have htells := (Eval.tellsWith n fuel).call (.cls c) arguments line hc hholds.1 hholds.2
    obtain ⟨hc', hfrom, _⟩ := htells.ends.ok hcall
    obtain ⟨o, rfl, hcls, hid⟩ := Eval.call_cls_eq_ok hcall
    obtain ⟨_, hobject⟩ := hc'.happened hfrom.2
    refine ⟨o, rfl, hcls, ?_, hobject, fun o' ho' => ?_⟩
    · rw [hid]
      exact Nat.lt_irrefl _
    · obtain ⟨_, hexists⟩ := hc.happened (ho'.mono hsub)
      rw [hid]
      exact Nat.ne_of_lt hexists

/-- For example, in a method that gives its object and that is called once more for it. -/
theorem receivers_fixed_in_initializer :
    (∃ h m o, Occurs h m ∧ m.event = .evaluates (.receiver 0 1) ∧
      Eval.eval 1 (.receiver 0 1) m.state = .ok (.object o) m.state) ∧
    (∃ h m method f o s, Occurs h m ∧ m.event = .calls (.function f) [] 1 ∧
      Happened h (.binds method f o) ∧ f.name = initializerName ∧
      Eval.call 9 (.function f) [] 1 m.state = .ok (.object o) s) ∧
    ∃ h m c o s, Occurs h m ∧ m.event = .calls (.cls c) [] 1 ∧
      Eval.call 9 (.cls c) [] 1 m.state = .ok (.object o) s ∧ o.cls = c ∧
      ¬m.state.store.HasObject o.id := by
  have hreceiver : ∃ m,
      (firstMoments 19 "class A { init() { this; } } A().init();")[12]? = some m ∧
      m.event = .evaluates (.receiver 0 1) :=
    ⟨_, by cbv, by cbv⟩
  have hinitializer : ∃ m f v s,
      (firstMoments 19 "class A { init() { this; } } A().init();")[14]? = some m ∧
      m.event = .calls (.function f) [] 1 ∧ f.name = initializerName ∧
      f.isInitializer = true ∧ Eval.call 9 (.function f) [] 1 m.state = .ok v s :=
    ⟨_, _, _, _, by cbv, by cbv, by cbv, by cbv, by cbv⟩
  have hclass : ∃ m c v s,
      (firstMoments 19 "class A { init() { this; } } A().init();")[7]? = some m ∧
      m.event = .calls (.cls c) [] 1 ∧
      Eval.call 9 (.cls c) [] 1 m.state = .ok v s :=
    ⟨_, _, _, _, by cbv, by cbv, by cbv⟩
  refine ⟨?_, ?_, ?_⟩
  · obtain ⟨m, hmoment, hevent⟩ := hreceiver
    have hm := occurs_of_getElem? hmoment
    obtain ⟨⟨method, f, o, d, hbinds, hactivation, _⟩, hreceivers⟩ :=
      receivers_fixed.1 _ m 0 1 hm hevent
    exact ⟨_, m, o, hm, hevent, hreceivers method f o d hbinds hactivation 0⟩
  · obtain ⟨m, f, v, s, hmoment, hevent, hname, hkind, hcall⟩ := hinitializer
    have hm := occurs_of_getElem? hmoment
    obtain ⟨n, hc⟩ := hm.exists_chronicle
    have hholds := hc.holds m (List.mem_append_right _ List.mem_cons_self)
    rw [hevent] at hholds
    obtain ⟨method, o, hbinds⟩ := hc.exists_binds hholds.1 hkind
    replace hbinds := hbinds.of_append fun heq => by
      rw [hevent] at heq
      cases heq
    obtain rfl := receivers_fixed.2.1 _ m method f o [] 1 hm hevent hbinds hname 9 v s hcall
    exact ⟨_, m, method, f, o, s, hm, hevent, hbinds, hname, hcall⟩
  · obtain ⟨m, c, v, s, hmoment, hevent, hcall⟩ := hclass
    have hm := occurs_of_getElem? hmoment
    obtain ⟨o, rfl, hcls, hnew, _⟩ := receivers_fixed.2.2 _ m c [] 1 hm hevent 9 v s hcall
    exact ⟨_, m, c, o, s, hm, hevent, hcall, hcls, hnew⟩

end Session

end ScopedScript
