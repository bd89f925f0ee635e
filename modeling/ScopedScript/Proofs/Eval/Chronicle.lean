import ScopedScript.Proofs.Eval.Invariant
import ScopedScript.Proofs.Eval.Moments
import ScopedScript.Proofs.Syntax.References

/-!
# What is on record stays true

What has happened in a run determines what its store looks like. The scopes that were made are still
linked in the same way; the scope of a method that was made for an object still binds `this` to that
object, and lies in the scope in which the method was declared, which still binds `super` to the
class that the class of the method inherits from. No scope of a block or of a call binds such a
word, and no value is there that is not on record.
-/

namespace ScopedScript

/-- Something is on record. -/
def Happened (h : List Moment) (event : Event) : Prop := ∃ m ∈ h, m.event = event

/-- A function for an object is being executed in a scope, which lies at a distance inside the one
that binds the object: in the scope of a call of it, in that of a block there, or in that of a call
of a function that was declared in one of these. -/
inductive Activation (h : List Moment) (f : Function) : EnvId → Nat → Prop where
  | call {scope : EnvId} : Happened h (.enters f scope) → Activation h f scope 1
  | block {outer inner : EnvId} {d : Nat} : Activation h f outer d →
      Happened h (.opens outer inner) → Activation h f inner (d + 1)
  | function {g : Function} {scope : EnvId} {d : Nat} : Activation h f g.closure d →
      Happened h (.enters g scope) → Activation h f scope (d + 1)

/-- The class declares a method itself. -/
def Class.Declares (c : Class) (method : Function) : Prop :=
  ∃ x, c.own.methods.get? x = some method

/-- A class declaration made a class. -/
def Class.From (h : List Moment) (c : Class) : Prop := ∃ d parent, Happened h (.derives d parent c)

/-- A declaration made a function, or it was made for an object. -/
def Function.From (h : List Moment) (f : Function) : Prop :=
  Happened h (.declares f) ∨ ∃ method o, Happened h (.binds method f o)

/-- What has an identity in a value is on record. -/
def Value.From (h : List Moment) : Value → Prop
  | .function f => f.From h
  | .cls c => c.From h
  | .object o => o.cls.From h ∧ Happened h (.creates o)
  | .nil | .bool _ | .number _ | .string _ | .native _ => True

/-- In a method, some references are met while a function is being executed that was made of the
method for an object, and the scopes that enclose the place say where the object is found and the
class that the class of the method inherits from. -/
def Stands (h : List Moment) (setting : Setting) (Γ : Scopes) (os : List Occurrence) (e : EnvId) :
    Prop :=
  setting.classKind ≠ .outside → ∃ method f o d, Happened h (.binds method f o) ∧
    Activation h f e d ∧ os ⊆ FunctionDecl.direct method.declaration ∧
    Γ.locate? receiverWord = some d ∧
    (setting.classKind = .subclass → Γ.locate? superclassWord = some (d + 1) ∧
      ∃ declaration c superclass, Happened h (.derives declaration (some superclass) c) ∧
        c.Declares method)

/-- What is known of code in given scopes. -/
structure CodeIn (n : NodeId) (distances : Distances) (rule : Prop) (rs : List Record)
    (os : List Occurrence) : Prop where
  fits : Fits n distances rule rs
  plain : ∀ o ∈ os, o.Plain

/-- What is known of a function declaration in given scopes. -/
structure FunctionDecl.ReadyIn (n : NodeId) (distances : Distances) (setting : Setting)
    (Γ : Scopes) (d : FunctionDecl) : Prop where
  formed : d.Formed
  code : CodeIn n distances (d.Obeys setting Γ) (d.records Γ) (FunctionDecl.occurrences d)

/-- The last of some declarations that has a given name. -/
def lastNamed? (declarations : List FunctionDecl) (x : String) : Option FunctionDecl :=
  (declarations.filter fun d => d.name.text == x).getLast?

/-- A scope lies in another one and binds none of the words that scopes declare of their own
accord. -/
structure Store.PlainIn (st : Store) (outer e : EnvId) : Prop where
  enclosing : st.enclosing? e = some outer
  plain : ∀ x, st.Binds e x → Ordinary x

/-- What is known of a function that a declaration made. -/
structure Function.Declared (n : NodeId) (h : List Moment) (s : State) (f : Function) : Prop where
  hasEnv : s.store.HasEnv f.closure
  not_initializer : f.isInitializer = false
  known : ∃ setting Γ, Stands h setting Γ (FunctionDecl.direct f.declaration) f.closure ∧
    f.declaration.ReadyIn n s.distances setting Γ

/-- What is known of a method of a class that inherits from another one or from none. -/
structure Function.MethodOf (n : NodeId) (s : State) (parent : Option Class) (f : Function) :
    Prop where
  hasEnv : s.store.HasEnv f.closure
  initializer : f.isInitializer = (f.name == initializerName)
  inherits : ∀ c ∈ parent, s.store.binding? f.closure superclassWord = some (.cls c)
  known : ∃ setting Γ, f.declaration.ReadyIn n s.distances setting (Scopes.receiverScope :: Γ) ∧
    (setting.classKind = .subclass → parent.isSome = true ∧
      Scopes.locate? Γ superclassWord = some 0)

/-- What is known of a class that a declaration made. -/
structure Class.Derived (n : NodeId) (h : List Moment) (s : State) (d : ClassDeclaration)
    (parent : Option Class) (c : Class) : Prop where
  executed : ⟨.executes d.stmt, d.state⟩ ∈ h
  parent_eq : Eval.parentOf d.superclass d.state = .ok parent d.state
  parent_from : ∀ superclass ∈ parent, superclass.From h ∧ superclass.own.id < c.own.id
  extending : c = .extending c.own parent
  id_lt : c.own.id < s.nextIdentity
  last : ∀ x, (c.own.methods.get? x).map Function.declaration = lastNamed? d.methods x
  methods : ∀ f, c.Declares f → f.MethodOf n s parent

/-- What is known of a function that was made of a method for an object. -/
structure Function.BoundTo (h : List Moment) (s : State) (f method : Function) (o : Object) :
    Prop where
  made : f = { method with id := f.id, closure := f.closure }
  receiver : s.store.binding? f.closure receiverWord = some (.object o)
  enclosing : s.store.enclosing? f.closure = some method.closure
  object : (Value.object o).From h
  method : ∃ d parent c, Happened h (.derives d parent c) ∧ c.Declares method

/-- What is known of something on record that happened in the scope `place`. -/
def Event.Holds (n : NodeId) (h : List Moment) (s : State) (place : EnvId) : Event → Prop
  | .evaluates e => ∃ setting Γ, Stands h setting Γ e.occurrences place ∧
      CodeIn n s.distances (e.Obeys setting Γ) (e.records Γ) e.occurrences
  | .executes _ => True
  | .calls callee arguments _ => callee.From h ∧ ∀ v ∈ arguments, v.From h
  | .opens outer inner => s.store.PlainIn outer inner
  | .enters f scope => s.store.PlainIn f.closure scope
  | .declares f => f.Declared n h s
  | .derives d parent c => c.Derived n h s d parent
  | .creates o => s.store.HasObject o.id
  | .binds method f o => f.BoundTo h s method o

/-- Everything that there is in one store is still there in another one, and what its scopes bind of
their own accord is bound to the same values. -/
structure Store.Keeps (st st' : Store) : Prop extends st.Extends st' where
  words : ∀ {e : EnvId} {x : String}, st.HasEnv e → ¬Ordinary x →
    st'.binding? e x = st.binding? e x
  hasObject : ∀ {o : ObjectId}, st.HasObject o → st'.HasObject o

/-- A later state, as far as what is on record depends on it: the references whose numbers lie below
`n` are known as before. -/
structure State.Follows (n : NodeId) (s s' : State) : Prop where
  globals_eq : s'.globals = s.globals
  host_eq : s'.host = s.host
  store : s.store.Keeps s'.store
  distances_agree : s.distances.Agree n s'.distances
  nextIdentity_le : s.nextIdentity ≤ s'.nextIdentity

/-- The store is linked as it should be, what is on record is true, and what there is is on
record. -/
structure Chronicle (n : NodeId) (h : List Moment) (s : State) : Prop where
  grounded : s.Grounded
  current : s.store.HasEnv s.current
  rooted : ∀ {e : EnvId}, s.store.HasEnv e → e ≠ s.globals →
    ∃ outer, s.store.enclosing? e = some outer ∧ outer < e
  later : ∀ m ∈ h, m.state.store.Extends s.store ∧ m.state.globals = s.globals
  holds : ∀ m ∈ h, m.event.Holds n h s m.state.current
  binding : ∀ {e : EnvId} {x : String} {v : Value}, s.store.binding? e x = some v → v.From h
  field : ∀ {o : ObjectId} {x : String} {v : Value}, s.store.field? o x = some v → v.From h
  last : s.lastValue.From h

section Mono

variable {n n' : NodeId} {h h' : List Moment} {s s' : State} {D D' : Distances} {e : EnvId}
variable {setting : Setting} {Γ : Scopes} {f : Function} {c : Class}

theorem Happened.mono {event : Event} (hsub : h ⊆ h') (hevent : Happened h event) :
    Happened h' event := by
  obtain ⟨m, hm, heq⟩ := hevent
  exact ⟨m, hsub hm, heq⟩

theorem Activation.mono {d : Nat} (hsub : h ⊆ h') (ha : Activation h f e d) :
    Activation h' f e d := by
  induction ha with
  | call hcall => exact .call (hcall.mono hsub)
  | block _ hopens ih => exact .block ih (hopens.mono hsub)
  | function _ hcall ih => exact .function ih (hcall.mono hsub)

theorem Class.From.mono (hsub : h ⊆ h') (hc : c.From h) : c.From h' := by
  obtain ⟨d, parent, hderives⟩ := hc
  exact ⟨d, parent, hderives.mono hsub⟩

theorem Value.From.mono {v : Value} (hsub : h ⊆ h') (hv : v.From h) : v.From h' := by
  cases v with
  | function f =>
      rcases hv with hdeclares | ⟨method, o, hbinds⟩
      · exact Or.inl (hdeclares.mono hsub)
      · exact Or.inr ⟨method, o, hbinds.mono hsub⟩
  | cls c => exact Class.From.mono hsub hv
  | object o => exact ⟨Class.From.mono hsub hv.1, hv.2.mono hsub⟩
  | _ => trivial

theorem Stands.mono {os : List Occurrence} (hs : Stands h setting Γ os e) (hsub : h ⊆ h') :
    Stands h' setting Γ os e := by
  intro hkind
  obtain ⟨method, f, o, d, hbinds, hactivation, hdirect, hlocate, hsubclass⟩ := hs hkind
  refine ⟨method, f, o, d, hbinds.mono hsub, hactivation.mono hsub, hdirect, hlocate,
    fun hkind => ?_⟩
  obtain ⟨hsuper, declaration, c, superclass, hderives, hmethod⟩ := hsubclass hkind
  exact ⟨hsuper, declaration, c, superclass, hderives.mono hsub, hmethod⟩

theorem CodeIn.mono {rule : Prop} {rs : List Record} {os : List Occurrence}
    (hcode : CodeIn n D rule rs os) (hle : n ≤ n') (hagree : D.Agree n D') :
    CodeIn n' D' rule rs os := ⟨hcode.fits.mono hle hagree, hcode.plain⟩

theorem FunctionDecl.ReadyIn.mono {d : FunctionDecl} (hd : d.ReadyIn n D setting Γ) (hle : n ≤ n')
    (hagree : D.Agree n D') : d.ReadyIn n' D' setting Γ := ⟨hd.formed, hd.code.mono hle hagree⟩

/-- A word that a scope declares of its own accord stays bound to the same value. -/
theorem Store.Keeps.binding? {st st' : Store} {x : String} {v : Value} (hst : st.Keeps st')
    (hx : ¬Ordinary x) (hv : st.binding? e x = some v) : st'.binding? e x = some v :=
  (hst.words (Store.hasEnv_of_binding? hv) hx).trans hv

theorem not_ordinary_receiverWord : ¬Ordinary receiverWord := fun h => h.1 rfl

theorem not_ordinary_superclassWord : ¬Ordinary superclassWord := fun h => h.2 rfl

theorem Store.Keeps.enclosing? {st st' : Store} {outer : EnvId} (hst : st.Keeps st')
    (he : st.enclosing? e = some outer) : st'.enclosing? e = some outer :=
  (hst.enclosing (Store.hasEnv_of_enclosing? he)).trans he

theorem Store.Keeps.plainIn {st st' : Store} {outer : EnvId} (hst : st.Keeps st')
    (he : st.PlainIn outer e) : st'.PlainIn outer e := by
  refine ⟨hst.enclosing? he.enclosing, fun x hx => Classical.byContradiction fun hnot => ?_⟩
  refine hnot (he.plain x ?_)
  unfold Store.Binds at hx ⊢
  rwa [hst.words (Store.hasEnv_of_enclosing? he.enclosing) hnot] at hx

theorem Function.Declared.mono (hf : f.Declared n h s) (hle : n ≤ n') (hsub : h ⊆ h')
    (hs : s.Follows n s') : f.Declared n' h' s' where
  hasEnv := hs.store.hasEnv hf.hasEnv
  not_initializer := hf.not_initializer
  known := by
    obtain ⟨setting, Γ, hstands, hready⟩ := hf.known
    exact ⟨setting, Γ, hstands.mono hsub, hready.mono hle hs.distances_agree⟩

theorem Function.MethodOf.mono {parent : Option Class} (hf : f.MethodOf n s parent) (hle : n ≤ n')
    (hs : s.Follows n s') : f.MethodOf n' s' parent where
  hasEnv := hs.store.hasEnv hf.hasEnv
  initializer := hf.initializer
  inherits c hc := hs.store.binding? not_ordinary_superclassWord (hf.inherits c hc)
  known := by
    obtain ⟨setting, Γ, hready, hkind⟩ := hf.known
    exact ⟨setting, Γ, hready.mono hle hs.distances_agree, hkind⟩

theorem Class.Derived.mono {d : ClassDeclaration} {parent : Option Class}
    (hc : c.Derived n h s d parent) (hle : n ≤ n') (hsub : h ⊆ h') (hs : s.Follows n s') :
    c.Derived n' h' s' d parent where
  executed := hsub hc.executed
  parent_eq := hc.parent_eq
  parent_from superclass hsuper :=
    ⟨(hc.parent_from superclass hsuper).1.mono hsub, (hc.parent_from superclass hsuper).2⟩
  extending := hc.extending
  id_lt := Nat.lt_of_lt_of_le hc.id_lt hs.nextIdentity_le
  last := hc.last
  methods f hf := (hc.methods f hf).mono hle hs

theorem Function.BoundTo.mono {method : Function} {o : Object} (hf : f.BoundTo h s method o)
    (hsub : h ⊆ h') (hs : s.Follows n s') : f.BoundTo h' s' method o where
  made := hf.made
  receiver := hs.store.binding? not_ordinary_receiverWord hf.receiver
  enclosing := hs.store.enclosing? hf.enclosing
  object := hf.object.mono hsub
  method := by
    obtain ⟨d, parent, c, hderives, hmethod⟩ := hf.method
    exact ⟨d, parent, c, hderives.mono hsub, hmethod⟩

/-- What is known of something on record stays known. -/
theorem Event.Holds.mono {event : Event} (hevent : event.Holds n h s e) (hle : n ≤ n')
    (hsub : h ⊆ h') (hs : s.Follows n s') : event.Holds n' h' s' e := by
  cases event with
  | evaluates e =>
      obtain ⟨setting, Γ, hstands, hcode⟩ := hevent
      exact ⟨setting, Γ, hstands.mono hsub, hcode.mono hle hs.distances_agree⟩
  | executes stmt => trivial
  | calls callee arguments line =>
      exact ⟨hevent.1.mono hsub, fun v hv => (hevent.2 v hv).mono hsub⟩
  | opens outer inner | enters f scope => exact hs.store.plainIn hevent
  | declares f => exact Function.Declared.mono hevent hle hsub hs
  | derives d parent c => exact Class.Derived.mono hevent hle hsub hs
  | creates o => exact hs.store.hasObject hevent
  | binds method f o => exact Function.BoundTo.mono hevent hsub hs

end Mono

namespace Store.Keeps

variable {st st₁ st₂ st₃ : Store} {e : EnvId} {o : ObjectId} {x : String} {v : Value}

theorem refl (st : Store) : st.Keeps st := ⟨.refl st, fun _ _ => rfl, id⟩

theorem trans (h₁ : st₁.Keeps st₂) (h₂ : st₂.Keeps st₃) : st₁.Keeps st₃ where
  toExtends := h₁.toExtends.trans h₂.toExtends
  words he hx := (h₂.words (h₁.hasEnv he) hx).trans (h₁.words he hx)
  hasObject ho := h₂.hasObject (h₁.hasObject ho)

theorem define (hx : Ordinary x) : st.Keeps (st.define e x v) where
  toExtends := .define
  words {e' y} _ hy := by
    rw [binding?_define, if_neg]
    rintro ⟨_, rfl, _⟩
    exact hy hx
  hasObject := id

theorem defineAll {names : List String} {values : List Value} (hnames : ∀ x ∈ names, Ordinary x) :
    st.Keeps (st.defineAll e names values) := by
  induction names generalizing st values with
  | nil => exact refl st
  | cons name names ih =>
      obtain ⟨hname, hrest⟩ := List.forall_mem_cons.mp hnames
      cases values with
      | nil => exact refl st
      | cons value values => exact (define hname).trans (ih hrest)

theorem addEnv {outer : Option EnvId} : st.Keeps (st.addEnv outer) where
  toExtends := .addEnv
  words _ _ := binding?_addEnv
  hasObject := id

/-- A new scope may bind any name. -/
theorem addEnv_define {outer : Option EnvId} :
    st.Keeps ((st.addEnv outer).define st.nextEnv x v) where
  toExtends := Extends.addEnv.trans .define
  words {e y} he _ := by
    rw [binding?_define, if_neg, binding?_addEnv]
    rintro ⟨rfl, _, _⟩
    exact Nat.lt_irrefl _ he
  hasObject := id

theorem addObject : st.Keeps st.addObject where
  toExtends := .addObject
  words _ _ := rfl
  hasObject {o} ho := by
    unfold HasObject Store.addObject at *
    rw [Array.size_push]
    exact Nat.lt_succ_of_lt ho

theorem setField : st.Keeps (st.setField o x v) where
  toExtends := .setField
  words _ _ := rfl
  hasObject {o'} ho := by
    unfold HasObject Store.setField at *
    rwa [Array.size_modify]

end Store.Keeps

theorem State.Follows.of_store {n : NodeId} {s : State} {st : Store} (h : s.store.Keeps st) :
    s.Follows n { s with store := st } := ⟨rfl, rfl, h, .refl _ _, Nat.le_refl _⟩

namespace Chronicle

variable {n n' : NodeId} {h : List Moment} {s s' : State} {e : EnvId} {o : ObjectId} {x : String}
variable {v : Value}

/-- What is on record stays true in a later state that holds only values on record besides those
that were there before. -/
theorem follow (hc : Chronicle n h s) (hle : n ≤ n') (hs : s.Follows n s')
    (hcurrent : s'.store.HasEnv s'.current)
    (hrooted : ∀ e, s'.store.HasEnv e → ¬s.store.HasEnv e →
      ∃ outer, s'.store.enclosing? e = some outer ∧ outer < e)
    (hbinding : ∀ e x v, s'.store.binding? e x = some v →
      s.store.binding? e x = some v ∨ v.From h)
    (hfield : ∀ o x v, s'.store.field? o x = some v → s.store.field? o x = some v ∨ v.From h)
    (hlast : s'.lastValue.From h) : Chronicle n' h s' where
  grounded := hc.grounded.later hs.globals_eq hs.store.toExtends hs.host_eq
  current := hcurrent
  rooted {e} he hne := by
    by_cases hold : s.store.HasEnv e
    · rw [hs.globals_eq] at hne
      obtain ⟨outer, houter, hlt⟩ := hc.rooted hold hne
      exact ⟨outer, hs.store.enclosing? houter, hlt⟩
    · exact hrooted e he hold
  later m hm := ⟨(hc.later m hm).1.trans hs.store.toExtends,
    (hc.later m hm).2.trans hs.globals_eq.symm⟩
  holds m hm := (hc.holds m hm).mono hle (fun _ h => h) hs
  binding hv := (hbinding _ _ _ hv).elim hc.binding id
  field hv := (hfield _ _ _ hv).elim hc.field id
  last := hlast

/-- Something that happens goes on record. -/
theorem mark {event : Event} (hc : Chronicle n h s)
    (hevent : event.Holds n (h ++ [⟨event, s⟩]) s s.current) :
    Chronicle n (h ++ [⟨event, s⟩]) s where
  grounded := hc.grounded
  current := hc.current
  rooted := hc.rooted
  later := List.forall_mem_append.mpr ⟨hc.later, List.forall_mem_singleton.mpr ⟨.refl _, rfl⟩⟩
  holds := by
    refine List.forall_mem_append.mpr ⟨fun m hm => ?_, List.forall_mem_singleton.mpr hevent⟩
    exact (hc.holds m hm).mono (Nat.le_refl n) (List.subset_append_left _ _)
      ⟨rfl, rfl, .refl _, .refl _ _, Nat.le_refl _⟩
  binding hv := (hc.binding hv).mono (List.subset_append_left _ _)
  field hv := (hc.field hv).mono (List.subset_append_left _ _)
  last := hc.last.mono (List.subset_append_left _ _)

/-- What is on record is true. -/
theorem happened {event : Event} (hc : Chronicle n h s) (hevent : Happened h event) :
    ∃ place, event.Holds n h s place := by
  obtain ⟨m, hm, rfl⟩ := hevent
  exact ⟨m.state.current, hc.holds m hm⟩

theorem declared {f : Function} (hc : Chronicle n h s) (hf : Happened h (.declares f)) :
    f.Declared n h s := by
  obtain ⟨_, hholds⟩ := hc.happened hf
  exact hholds

theorem derived {d : ClassDeclaration} {parent : Option Class} {c : Class} (hc : Chronicle n h s)
    (hderives : Happened h (.derives d parent c)) : c.Derived n h s d parent := by
  obtain ⟨_, hholds⟩ := hc.happened hderives
  exact hholds

theorem boundTo {method f : Function} {o : Object} (hc : Chronicle n h s)
    (hbinds : Happened h (.binds method f o)) : f.BoundTo h s method o := by
  obtain ⟨_, hholds⟩ := hc.happened hbinds
  exact hholds

/-- A later state in the same store. -/
theorem of_same (hc : Chronicle n h s) (hstore : s'.store = s.store)
    (hglobals : s'.globals = s.globals) (hdistances : s'.distances = s.distances)
    (hhost : s'.host = s.host) (hid : s.nextIdentity ≤ s'.nextIdentity)
    (hcurrent : s.store.HasEnv s'.current) (hlast : s'.lastValue.From h) : Chronicle n h s' := by
  refine hc.follow (Nat.le_refl n) ⟨hglobals, hhost, ?_, ?_, hid⟩ ?_ ?_ ?_ ?_ hlast
  · rw [hstore]
    exact .refl _
  · rw [hdistances]
    exact .refl _ _
  · rwa [hstore]
  · intro e he hnot
    rw [hstore] at he
    exact (hnot he).elim
  · intro e x v hv
    rw [hstore] at hv
    exact Or.inl hv
  · intro o x v hv
    rw [hstore] at hv
    exact Or.inl hv

theorem define (hc : Chronicle n h s) (hx : Ordinary x) (hv : v.From h) :
    Chronicle n h { s with store := s.store.define e x v } := by
  refine hc.follow (Nat.le_refl n) (.of_store (.define hx)) (Store.hasEnv_define.mpr hc.current)
    ?_ ?_ (fun _ _ _ hw => Or.inl hw) hc.last
  · intro e' he' hnot
    exact (hnot (Store.hasEnv_define.mp he')).elim
  · intro e' y w hw
    simp only [Store.binding?_define] at hw
    by_cases hbound : e = e' ∧ x = y ∧ s.store.HasEnv e
    · rw [if_pos hbound] at hw
      cases hw
      exact Or.inr hv
    · rw [if_neg hbound] at hw
      exact Or.inl hw

theorem defineAll {names : List String} {values : List Value} (hc : Chronicle n h s)
    (hnames : ∀ x ∈ names, Ordinary x) (hvalues : ∀ v ∈ values, v.From h) :
    Chronicle n h { s with store := s.store.defineAll e names values } := by
  induction names generalizing s values with
  | nil => exact hc
  | cons name names ih =>
      obtain ⟨hname, hnames⟩ := List.forall_mem_cons.mp hnames
      cases values with
      | nil => exact hc
      | cons v values =>
          obtain ⟨hv, hvalues⟩ := List.forall_mem_cons.mp hvalues
          exact ih (hc.define hname hv) hnames hvalues

theorem addEnv {outer : EnvId} (hc : Chronicle n h s) (houter : s.store.HasEnv outer) :
    Chronicle n h { s with store := s.store.addEnv (some outer) } := by
  refine hc.follow (Nat.le_refl n) (.of_store .addEnv) (Store.hasEnv_addEnv hc.current) ?_ ?_
    (fun _ _ _ hw => Or.inl hw) hc.last
  · intro e he hnot
    obtain rfl : e = s.store.nextEnv := by
      unfold Store.HasEnv at he hnot
      unfold Store.addEnv at he
      unfold Store.nextEnv
      rw [Array.size_push] at he
      exact Nat.eq_of_lt_succ_of_not_lt he hnot
    exact ⟨outer, Store.enclosing?_addEnv_nextEnv, houter⟩
  · intro e x v hv
    simp only [Store.binding?_addEnv] at hv
    exact Or.inl hv

/-- A new scope may bind any name. -/
theorem addEnv_define {outer : EnvId} (hc : Chronicle n h s) (houter : s.store.HasEnv outer)
    (hv : v.From h) : Chronicle n h
      { s with store := (s.store.addEnv (some outer)).define s.store.nextEnv x v } := by
  have hadded := hc.addEnv houter
  refine hc.follow (Nat.le_refl n) (.of_store .addEnv_define)
    (Store.hasEnv_define.mpr hadded.current) ?_ ?_ (fun _ _ _ hw => Or.inl hw) hc.last
  · intro e he hnot
    have hne : e ≠ s.globals := fun heq => hnot (heq ▸ hc.grounded.hasEnv)
    obtain ⟨outer', houter', hlt⟩ := hadded.rooted (Store.hasEnv_define.mp he) hne
    exact ⟨outer', Store.enclosing?_define.trans houter', hlt⟩
  · intro e y w hw
    simp only [Store.binding?_define, Store.binding?_addEnv] at hw
    by_cases hbound : s.store.nextEnv = e ∧ x = y ∧
        (s.store.addEnv (some outer)).HasEnv s.store.nextEnv
    · rw [if_pos hbound] at hw
      cases hw
      exact Or.inr hv
    · rw [if_neg hbound] at hw
      exact Or.inl hw

theorem addObject (hc : Chronicle n h s) :
    Chronicle n h { s with store := s.store.addObject } := by
  refine hc.follow (Nat.le_refl n) (.of_store .addObject) hc.current
    (fun e he hnot => (hnot he).elim) (fun _ _ _ hw => Or.inl hw) ?_ hc.last
  intro o x v hv
  simp only [Store.field?_addObject] at hv
  exact Or.inl hv

theorem setField (hc : Chronicle n h s) (hv : v.From h) :
    Chronicle n h { s with store := s.store.setField o x v } := by
  refine hc.follow (Nat.le_refl n) (.of_store .setField) hc.current
    (fun e he hnot => (hnot he).elim) (fun _ _ _ hw => Or.inl hw) ?_ hc.last
  intro o' y w hw
  simp only [Store.field?_setField] at hw
  by_cases hset : o = o' ∧ x = y ∧ s.store.HasObject o
  · rw [if_pos hset] at hw
    cases hw
    exact Or.inr hv
  · rw [if_neg hset] at hw
    exact Or.inl hw

end Chronicle

section Provenance

variable {n : NodeId} {h : List Moment} {s : State} {c : Class}

theorem Class.own_extending (layer : ClassLayer) (parent : Option Class) :
    (Class.extending layer parent).own = layer := by
  cases parent <;> rfl

/-- Each layer of a class is that of a class that a declaration made. -/
theorem Chronicle.exists_own_eq (hc : Chronicle n h s) (hfrom : c.From h) {layer : ClassLayer}
    (hlayer : layer ∈ c.own :: c.inherited) :
    ∃ d parent c', Happened h (.derives d parent c') ∧ c'.own = layer := by
  induction hlength : c.inherited.length using Nat.strongRecOn generalizing c with
  | ind length ih =>
    obtain ⟨d, parent, hderives⟩ := id hfrom
    rcases List.mem_cons.mp hlayer with rfl | hlayer
    · exact ⟨d, parent, c, hderives, rfl⟩
    · have hderived := hc.derived hderives
      cases parent with
      | none =>
          rw [hderived.extending] at hlayer
          cases hlayer
      | some superclass =>
          have hinherited : c.inherited = superclass.own :: superclass.inherited := by
            rw [hderived.extending]
            rfl
          rw [hinherited] at hlayer hlength
          exact ih _ (by rw [← hlength]; exact Nat.lt_succ_self _)
            (hderived.parent_from superclass rfl).1 hlayer rfl

/-- A method that is found from a class on is one that a class on record declares. -/
theorem Chronicle.exists_declares (hc : Chronicle n h s) (hfrom : c.From h) {x : String}
    {method : Function} (hmethod : c.findMethod? x = some method) :
    ∃ d parent c', Happened h (.derives d parent c') ∧ c'.Declares method := by
  obtain ⟨layer, hlayer, hget⟩ := List.exists_of_findSome?_eq_some hmethod
  obtain ⟨d, parent, c', hderives, rfl⟩ := hc.exists_own_eq hfrom hlayer
  exact ⟨d, parent, c', hderives, x, hget⟩

end Provenance

end ScopedScript
