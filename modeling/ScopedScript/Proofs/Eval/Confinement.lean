import ScopedScript.Proofs.Eval.Growth
import ScopedScript.Proofs.Store.Reach

/-!
# What a run can get at

A run that begins with some values at hand gets at what can be reached from them, at what can be
reached from the global scope, and at what it makes itself. The cells that were there before and
lie outside of that are left alone, and no value that comes up leads to them: each operation follows
links, makes new cells, or puts one value that the run has got at into a cell that it has got at.
-/

namespace ScopedScript

/-- There is a cell: scopes and objects are in the store, and the numbers of functions, classes and
natives have been given out. -/
def State.Has (s : State) : Cell → Prop
  | .env e => s.store.HasEnv e
  | .object o => s.store.HasObject o
  | .callable id => id < s.nextIdentity

instance (s : State) (c : Cell) : Decidable (s.Has c) :=
  match c with
  | .env e => inferInstanceAs (Decidable (s.store.HasEnv e))
  | .object o => inferInstanceAs (Decidable (s.store.HasObject o))
  | .callable id => inferInstanceAs (Decidable (id < s.nextIdentity))

/-- A value leads to a cell, by itself or through the store. -/
def State.Reaches (s : State) (v : Value) (c : Cell) : Prop :=
  ∃ first, v.Mentions first ∧ Relation.ReflTransGen s.store.Link first c

/-- One of the values, or else the global scope, leads to a cell. -/
def State.ReachedBy (s : State) (values : List Value) (c : Cell) : Prop :=
  (∃ v ∈ values, s.Reaches v c) ∨ Relation.ReflTransGen s.store.Link (.env s.globals) c

/-- What natives answer leads to nothing but what their arguments lead to. -/
def Host.Discreet (host : Host) : Prop :=
  ∀ f calls arguments v, host.answer f calls arguments = .ok v →
    ∀ c, v.Mentions c → ∃ w ∈ arguments, w.Mentions c

theorem Host.discreet_ofClock (readings : Nat → Float) : (Host.ofClock readings).Discreet := by
  intro f calls arguments v h c hc
  cases h
  exact hc.elim

/-- Where a run begins: a state, and the values that are at hand in it. -/
structure Outset where
  state : State
  values : List Value

namespace State

variable {s : State} {values : List Value} {c c' : Cell} {K : Cell → Prop}

/-- What a value leads to lies in any set of cells that no link leads out of and that holds what the
value mentions. -/
theorem Reaches.mem {v : Value} (hK : ∀ c c', s.store.Link c c' → K c → K c') (hv : v.In K)
    (h : s.Reaches v c) : K c := by
  obtain ⟨first, hfirst, hpath⟩ := h
  exact Store.mem_of_reflTransGen hK hpath (hv first hfirst)

theorem ReachedBy.mem (hK : ∀ c c', s.store.Link c c' → K c → K c')
    (hvalues : ∀ v ∈ values, v.In K) (hglobals : K (.env s.globals)) (h : s.ReachedBy values c) :
    K c := by
  obtain ⟨v, hv, hreaches⟩ | hpath := h
  · exact hreaches.mem hK (hvalues v hv)
  · exact Store.mem_of_reflTransGen hK hpath hglobals

theorem Has.of_link (h : s.store.Link c c') : s.Has c := by
  cases h with
  | binding hv _ => exact Store.hasEnv_of_binding? hv
  | enclosing houter => exact Store.hasEnv_of_enclosing? houter
  | field hv _ => exact Store.hasObject_of_field? hv

theorem Has.mono {s' : State} (h : s.Has c) (henv : ∀ e, s.store.HasEnv e → s'.store.HasEnv e)
    (hobject : ∀ o, s.store.HasObject o → s'.store.HasObject o)
    (hid : s.nextIdentity ≤ s'.nextIdentity) : s'.Has c := by
  cases c with
  | env e => exact henv e h
  | object o => exact hobject o h
  | callable id => exact Nat.lt_of_lt_of_le h hid

theorem ReachedBy.link (h : s.ReachedBy values c) (hlink : s.store.Link c c') :
    s.ReachedBy values c' := by
  obtain ⟨v, hv, first, hfirst, hpath⟩ | hpath := h
  · exact Or.inl ⟨v, hv, first, hfirst, hpath.tail hlink⟩
  · exact Or.inr (hpath.tail hlink)

end State

namespace Outset

/-- The run could get at a cell from the beginning. -/
def Reaches (b : Outset) (c : Cell) : Prop := b.state.ReachedBy b.values c

/-- The run can get at a cell: it could do so from the beginning, or the cell was made since. -/
def InReach (b : Outset) (s : State) (c : Cell) : Prop := b.Reaches c ∨ ¬b.state.Has c ∧ s.Has c

/-- A state of the run in which no link leads from what the run can get at to anything else. -/
structure Confined (b : Outset) (s : State) : Prop where
  globals : b.InReach s (.env s.globals)
  closed : ∀ c c', s.store.Link c c' → b.InReach s c → b.InReach s c'
  discreet : s.host.Discreet
  later : ∀ c, b.state.Has c → s.Has c

/-- A confined state whose current scope the run can get at. -/
structure Settled (b : Outset) (s : State) : Prop extends Confined b s where
  current : b.InReach s (.env s.current)

/-- From one state of the run to a later one, the cells that were there from the beginning but could
not be got at are left alone. -/
structure Spares (b : Outset) (s s' : State) : Prop where
  grows : s.Grows s'
  has : ∀ c, s.Has c → s'.Has c
  envs : ∀ e, b.state.Has (.env e) → ¬b.Reaches (.env e) → s'.store.envs[e]? = s.store.envs[e]?
  fields : ∀ o, b.state.Has (.object o) → ¬b.Reaches (.object o) →
    s'.store.fields[o]? = s.store.fields[o]?

theorem InReach.later {b : Outset} {s s' : State} {c : Cell} (h : b.InReach s c)
    (hs : b.Spares s s') : b.InReach s' c :=
  h.imp id fun h => ⟨h.1, hs.has c h.2⟩

end Outset

theorem Value.In.later {b : Outset} {s s' : State} {v : Value} (h : v.In (b.InReach s))
    (hs : b.Spares s s') : v.In (b.InReach s') :=
  h.mono fun _ hc => hc.later hs

namespace Outset

/-- A part of the run that spares those cells and ends in a confined state. -/
structure Advances (b : Outset) (s s' : State) : Prop where
  spares : b.Spares s s'
  confined : b.Confined s'

variable {b : Outset} {s s' s₁ s₂ s₃ : State} {c : Cell} {e outer : EnvId} {x : String} {v : Value}

namespace Spares

theorem refl (s : State) : b.Spares s s where
  grows := .refl s
  has _ hc := hc
  envs _ _ _ := rfl
  fields _ _ _ := rfl

theorem trans (h₁ : b.Spares s₁ s₂) (h₂ : b.Spares s₂ s₃) : b.Spares s₁ s₃ where
  grows := h₁.grows.trans h₂.grows
  has c hc := h₂.has c (h₁.has c hc)
  envs e he hout := (h₂.envs e he hout).trans (h₁.envs e he hout)
  fields o ho hout := (h₂.fields o ho hout).trans (h₁.fields o ho hout)

/-- Which scope is current in between makes no difference. -/
theorem within {scope : EnvId} (h : b.Spares { s with current := scope } s') :
    b.Spares s { s' with current := s.current } where
  grows := h.grows.within
  has _ hc := (h.has _ (hc.mono (fun _ => id) (fun _ => id) (Nat.le_refl _))).mono
    (fun _ => id) (fun _ => id) (Nat.le_refl _)
  envs := h.envs
  fields := h.fields

end Spares

theorem InReach.ne {c' : Cell} (h : b.InReach s c) (hc' : b.state.Has c') (hout : ¬b.Reaches c') :
    c ≠ c' := by
  rintro rfl
  exact h.elim hout fun h => h.1 hc'

namespace Confined

variable {o : ObjectId}

theorem inReach_of_new (hs : b.Confined s) (hc : ¬s.Has c) (hc' : s'.Has c) : b.InReach s' c :=
  Or.inr ⟨fun hbase => hc (hs.later c hbase), hc'⟩

/-- A state is confined if the links that it adds lead to what the run can get at. -/
theorem advances (hs : b.Confined s) (hspares : b.Spares s s')
    (hlinks : ∀ c c', s'.store.Link c c' → s.store.Link c c' ∨ b.InReach s' c') :
    b.Advances s s' where
  spares := hspares
  confined := {
    globals := by
      rw [hspares.grows.globals_eq]
      exact hs.globals.later hspares
    closed := by
      intro c c' hlink hc
      rcases hlinks c c' hlink with hold | hnew
      · -- A cell with an old link was there already.
        have hc : b.InReach s c := hc.imp id fun h => ⟨h.1, State.Has.of_link hold⟩
        exact (hs.closed c c' hold hc).later hspares
      · exact hnew
    discreet := by
      rw [hspares.grows.host_eq]
      exact hs.discreet
    later := fun c hc => hspares.has c (hs.later c hc) }

theorem refl (hs : b.Confined s) : b.Advances s s := ⟨.refl s, hs⟩

theorem of_same_store (hs : b.Confined s) (hgrows : s.Grows s') (hstore : s'.store = s.store)
    (hid : s.nextIdentity ≤ s'.nextIdentity) : b.Advances s s' := by
  refine hs.advances ⟨hgrows, ?_, ?_, ?_⟩ ?_
  · intro c hc
    refine hc.mono ?_ ?_ hid
    · rw [hstore]
      exact fun _ => id
    · rw [hstore]
      exact fun _ => id
  · intro e _ _
    rw [hstore]
  · intro o _ _
    rw [hstore]
  · intro c c' hlink
    rw [hstore] at hlink
    exact Or.inl hlink

theorem define (hs : b.Confined s) (he : b.InReach s (.env e)) (hv : v.In (b.InReach s)) :
    b.Advances s { s with store := s.store.define e x v } := by
  have hspares : b.Spares s { s with store := s.store.define e x v } := {
    grows := .of_store .define
    has := fun _ hc => hc.mono (fun _ => Store.hasEnv_define.mpr) (fun _ => id) (Nat.le_refl _)
    envs := by
      intro e' he' hout
      refine Store.envs_define_of_ne ?_
      rintro rfl
      exact he.ne he' hout rfl
    fields := fun _ _ _ => rfl }
  refine hs.advances hspares fun c c' hlink => ?_
  exact (Store.Link.of_define hlink).imp id fun hc' => (hv c' hc').later hspares

theorem addEnv (hs : b.Confined s) (houter : b.InReach s (.env outer)) :
    b.Advances s { s with store := s.store.addEnv (some outer) } := by
  have hspares : b.Spares s { s with store := s.store.addEnv (some outer) } := {
    grows := .of_store .addEnv
    has := fun _ hc => hc.mono (fun _ => Store.hasEnv_addEnv) (fun _ => id) (Nat.le_refl _)
    envs := fun e he _ => Store.envs_addEnv (hs.later (.env e) he)
    fields := fun _ _ _ => rfl }
  refine hs.advances hspares fun c c' hlink => ?_
  refine (Store.Link.of_addEnv hlink).imp id ?_
  rintro ⟨e, he, rfl⟩
  cases he
  exact houter.later hspares

theorem addObject (hs : b.Confined s) : b.Advances s { s with store := s.store.addObject } := by
  refine hs.advances ⟨.of_store .addObject, ?_, fun _ _ _ => rfl, ?_⟩ ?_
  · exact fun c hc => hc.mono (fun _ => id) (fun _ => Store.hasObject_addObject) (Nat.le_refl _)
  · exact fun o ho _ => Store.fields_addObject (hs.later (.object o) ho)
  · exact fun c c' hlink => Or.inl (Store.Link.of_addObject hlink)

theorem setField (hs : b.Confined s) (ho : b.InReach s (.object o)) (hv : v.In (b.InReach s)) :
    b.Advances s { s with store := s.store.setField o x v } := by
  have hspares : b.Spares s { s with store := s.store.setField o x v } := {
    grows := .of_store .setField
    has := fun _ hc => hc.mono (fun _ => id) (fun _ => Store.hasObject_setField.mpr) (Nat.le_refl _)
    envs := fun _ _ _ => rfl
    fields := by
      intro o' ho' hout
      refine Store.fields_setField_of_ne ?_
      rintro rfl
      exact ho.ne ho' hout rfl }
  refine hs.advances hspares fun c c' hlink => ?_
  exact (Store.Link.of_setField hlink).imp id fun hc' => (hv c' hc').later hspares

end Confined

theorem Advances.trans (h₁ : b.Advances s₁ s₂) (h₂ : b.Advances s₂ s₃) : b.Advances s₁ s₃ :=
  ⟨h₁.spares.trans h₂.spares, h₂.confined⟩

theorem Confined.defineAll (hs : b.Confined s) (names : List String) {values : List Value}
    (he : b.InReach s (.env e)) (hvalues : ∀ v ∈ values, v.In (b.InReach s)) :
    b.Advances s { s with store := s.store.defineAll e names values } := by
  induction names generalizing s values with
  | nil => exact hs.refl
  | cons name names ih =>
      cases values with
      | nil => exact hs.refl
      | cons v values =>
          obtain ⟨hv, hrest⟩ := List.forall_mem_cons.mp hvalues
          have hfirst : b.Advances s { s with store := s.store.define e name v } :=
            hs.define he hv
          exact hfirst.trans (ih hfirst.confined (he.later hfirst.spares)
            fun w hw => (hrest w hw).later hfirst.spares)

theorem Settled.advance (hs : b.Settled s) (h : b.Advances s s') : b.Settled s' where
  toConfined := h.confined
  current := by
    rw [h.spares.grows.current_eq]
    exact hs.current.later h.spares

end Outset

namespace Eval

variable {α β : Type} {b : Outset} {s s' t : State} {m : Eval α} {f : α → Eval β} {a : α}
variable {Q : α → State → Prop} {P : β → State → Prop}

/-- However `m` ends, it has left alone what the run cannot get at, and if it ends well it does so
in a confined state and as `Q` says. -/
def Stays (b : Outset) (s : State) (m : Eval α) (Q : α → State → Prop) : Prop :=
  m.Ensures s (fun a s' => b.Advances s s' ∧ Q a s') (fun _ s' => b.Spares s s')

/-- However `m` ends, it has left alone what the run cannot get at, and a value that it gives leads
to nothing else. -/
abbrev Gives (b : Outset) (s : State) (m : Eval Value) : Prop :=
  Stays b s m fun v s' => v.In (b.InReach s')

namespace Stays

theorem of_ok (h : m s = .ok a t) (ht : b.Advances s t) (hQ : Q a t) : Stays b s m Q :=
  Run.Ensures.of_ok h ⟨ht, hQ⟩

theorem pure (hs : b.Confined s) (hQ : Q a s) : Stays b s (Pure.pure a : Eval α) Q :=
  .of_ok rfl hs.refl hQ

theorem fail {fault : RuntimeFault} {line : Nat} : Stays b s (Eval.fail fault line : Eval α) Q :=
  Run.Ensures.of_fault rfl (.refl s)

theorem outOfFuel : Stays b s (Run.outOfFuel : Eval α) Q := Run.Ensures.of_exhausted rfl

/-- What is run after a part of the run goes on from where that began. -/
theorem after (h : b.Advances s t) (hm : Stays b t m Q) :
    m.Ensures t (fun a s' => b.Advances s s' ∧ Q a s') (fun _ s' => b.Spares s s') :=
  Run.Ensures.mono hm (fun _ _ hend => ⟨h.trans hend.1, hend.2⟩)
    (fun _ _ hend => h.spares.trans hend)

theorem bind (h : Stays b s m Q) (hf : ∀ a t, b.Advances s t → Q a t → Stays b t (f a) P) :
    Stays b s (m >>= f) P := by
  refine Run.Ensures.bind h ?_
  rintro a t ⟨hadvances, hQ⟩
  exact after hadvances (hf a t hadvances hQ)

theorem bind_of_ok (h : m s = .ok a t) (ht : b.Advances s t) (hf : Stays b t (f a) P) :
    Stays b s (m >>= f) P :=
  Run.Ensures.bind_of_ok h (after ht hf)

theorem bind_same (h : m s = .ok a s) (hf : Stays b s (f a) P) : Stays b s (m >>= f) P :=
  Run.Ensures.bind_of_ok h hf

end Stays

section Operations

variable {e : EnvId} {o : Object} {k : Class} {method : Function} {name : Name} {v : Value}

theorem stays_emit {text : String} (hs : b.Confined s) :
    Stays b s (emit text) fun _ _ => True := by
  have hsink (sink : Sink) : b.Advances s { s with sink := sink } :=
    hs.of_same_store ⟨rfl, rfl, rfl, rfl, rfl, .refl _⟩ rfl (Nat.le_refl _)
  exact ensures_emit (fun sink _ => ⟨hsink sink, trivial⟩) fun _ sink _ => (hsink sink).spares

theorem stays_freshIdentity (hs : b.Confined s) :
    Stays b s freshIdentity fun id s' => b.InReach s' (.callable id) := by
  have hnext : b.Advances s { s with nextIdentity := s.nextIdentity + 1 } :=
    hs.of_same_store ⟨rfl, rfl, rfl, rfl, rfl, .refl _⟩ rfl (Nat.le_succ _)
  have hnew : ¬s.Has (.callable s.nextIdentity) := Nat.lt_irrefl _
  exact .of_ok rfl hnext (hs.inReach_of_new hnew (Nat.lt_succ_self s.nextIdentity))

theorem stays_newEnv (hs : b.Confined s) (he : b.InReach s (.env e)) :
    Stays b s (newEnv e) fun scope s' => b.InReach s' (.env scope) := by
  have hnew : ¬s.Has (.env s.store.nextEnv) := Nat.lt_irrefl _
  exact .of_ok rfl (hs.addEnv he) (hs.inReach_of_new hnew Store.hasEnv_nextEnv)

theorem stays_newObject (hs : b.Confined s) (hk : Value.In (b.InReach s) (.cls k)) :
    Stays b s (newObject k) fun o s' => Value.In (b.InReach s') (.object o) := by
  have hnew : ¬s.Has (.object s.store.nextObject) := Nat.lt_irrefl _
  refine .of_ok rfl hs.addObject ?_
  rintro c (rfl | hc)
  · exact hs.inReach_of_new hnew Store.hasObject_nextObject
  · exact (hk c hc).later hs.addObject.spares

theorem stays_defineIn {x : String} (hs : b.Confined s) (he : b.InReach s (.env e))
    (hv : v.In (b.InReach s)) :
    Stays b s (onStore fun store => store.define e x v) fun _ _ => True :=
  .of_ok rfl (hs.define he hv) trivial

theorem stays_define {x : String} (hs : b.Settled s) (hv : v.In (b.InReach s)) :
    Stays b s (define x v) fun _ _ => True :=
  .of_ok rfl (hs.define hs.current hv) trivial

theorem gives_readAt {d : Nat} (hs : b.Confined s) (he : b.InReach s (.env e)) :
    Gives b s (readAt e d name) := by
  refine .bind_same (Run.get_apply s) ?_
  cases hlookup : s.store.lookupAt e d name.text with
  | ok v => exact .pure hs (Store.in_of_lookupAt hs.closed hlookup he)
  | error fault => cases fault <;> exact .fail

theorem gives_read {id : NodeId} (hs : b.Settled s) : Gives b s (read id name) := by
  refine .bind_same (Run.get_apply s) ?_
  cases s.distances[id]? with
  | some d => exact gives_readAt hs.toConfined hs.current
  | none =>
      cases hlookup : s.store.lookup? s.globals name.text with
      | some v => exact .pure hs.toConfined (Store.in_of_lookup? hs.closed hlookup hs.globals)
      | none => exact .fail

theorem stays_assignmentTarget {ref : Reference} (hs : b.Settled s) :
    Stays b s (assignmentTarget ref) fun target s' => b.InReach s' (.env target) := by
  refine .bind_same (Run.get_apply s) ?_
  cases hdistance : s.distances[ref.id]? with
  | some d =>
      simp only
      cases htarget : s.store.ancestor? s.current d with
      | some target =>
          exact .pure hs.toConfined (Store.mem_of_ancestor? hs.closed htarget hs.current)
      | none => exact .fail
  | none =>
      simp only
      cases hbinder : s.store.binder? s.globals ref.name.text with
      | some target =>
          exact .pure hs.toConfined (Store.mem_of_binderWithin? hs.closed hbinder hs.globals)
      | none => exact .fail

theorem stays_assign {ref : Reference} (hs : b.Settled s) (hv : v.In (b.InReach s)) :
    Stays b s (assign ref v) fun _ _ => True := by
  refine (stays_assignmentTarget hs).bind fun target t ht htarget => ?_
  exact stays_defineIn ht.confined htarget (hv.later ht.spares)

/-- A method that is bound to an object has a new scope of its own, which binds nothing else. -/
theorem stays_bindMethod (hs : b.Confined s) (hclosure : b.InReach s (.env method.closure))
    (ho : Value.In (b.InReach s) (.object o)) :
    Stays b s (bindMethod method o) fun f s' => Value.In (b.InReach s') (.function f) := by
  refine (stays_newEnv hs hclosure).bind fun scope s₁ h₁ hscope => ?_
  refine (stays_defineIn h₁.confined hscope (ho.later h₁.spares)).bind fun _ s₂ h₂ _ => ?_
  refine (stays_freshIdentity h₂.confined).bind fun id s₃ h₃ hid => ?_
  refine .pure h₃.confined ?_
  rintro c (rfl | rfl)
  · exact hid
  · exact (hscope.later h₂.spares).later h₃.spares

/-- The closure of a method of a class that the run can get at. -/
theorem inReach_closure {x : String} (hk : Value.In (b.InReach s) (.cls k))
    (h : k.findMethod? x = some method) : b.InReach s (.env method.closure) :=
  hk _ (Class.mentions_of_findMethod? h (Or.inr rfl))

theorem in_cls_of_object (ho : Value.In (b.InReach s) (.object o)) :
    Value.In (b.InReach s) (.cls o.cls) := fun c hc => ho c (Or.inr hc)

theorem gives_property (hs : b.Confined s) (ho : Value.In (b.InReach s) (.object o)) :
    Gives b s (property o name) := by
  refine .bind_same (Run.get_apply s) ?_
  cases hfield : s.store.field? o.id name.text with
  | some v => exact .pure hs (Store.in_of_field? hs.closed hfield (ho _ (Or.inl rfl)))
  | none =>
      cases hmethod : o.cls.findMethod? name.text with
      | some method =>
          have hclosure := inReach_closure (in_cls_of_object ho) hmethod
          exact (stays_bindMethod hs hclosure ho).bind fun f t ht hf => .pure ht.confined hf
      | none => exact .fail

theorem gives_inheritedMethod {id : NodeId} {line : Nat} (hs : b.Settled s) :
    Gives b s (inheritedMethod id line name) := by
  refine .bind_same (Run.get_apply s) ?_
  cases s.distances[id]? with
  | none => exact .fail
  | some d =>
      refine (gives_readAt hs.toConfined hs.current).bind fun v s₁ h₁ hv => ?_
      cases v with
      | cls superclass =>
          cases d with
          | zero => exact .fail
          | succ inner =>
              have he : b.InReach s₁ (.env s.current) := hs.current.later h₁.spares
              refine (gives_readAt h₁.confined he).bind fun w s₂ h₂ hw => ?_
              cases w with
              | object o =>
                  cases hmethod : superclass.findMethod? name.text with
                  | some found =>
                      simp only
                      have hclosure := inReach_closure (hv.later h₂.spares) hmethod
                      exact (stays_bindMethod h₂.confined hclosure hw).bind fun f t ht hf =>
                        .pure ht.confined hf
                  | none =>
                      simp only
                      exact .fail
              | _ => exact .fail
      | _ => exact .fail

/-- The functions that declarations make are new, and have the scope that they are declared in. -/
theorem stays_makeMethods {closure : EnvId} {ds : List FunctionDecl} (hs : b.Confined s)
    (hclosure : b.InReach s (.env closure)) :
    Stays b s (makeMethods closure ds) fun methods s' =>
      ∀ x f, methods.get? x = some f → Value.In (b.InReach s') (.function f) := by
  have hgo (made : Bindings Function) {s : State} (hs : b.Confined s)
      (hclosure : b.InReach s (.env closure))
      (hmade : ∀ x f, made.get? x = some f → Value.In (b.InReach s) (.function f)) :
      Stays b s (makeMethods.go closure made ds) fun methods s' =>
        ∀ x f, methods.get? x = some f → Value.In (b.InReach s') (.function f) := by
    induction ds generalizing made s with
    | nil => exact .pure hs hmade
    | cons d ds ih =>
        refine (stays_freshIdentity hs).bind fun id t ht hid => ?_
        refine ih _ ht.confined (hclosure.later ht.spares) fun x f hf => ?_
        rw [Bindings.get?_insert] at hf
        by_cases hx : d.name.text = x
        · rw [if_pos hx] at hf
          cases hf
          rintro c (rfl | rfl)
          · exact hid
          · exact hclosure.later ht.spares
        · rw [if_neg hx] at hf
          exact Value.In.later (hmade x f hf) ht.spares
  exact hgo .empty hs hclosure (by simp)

theorem stays_superclass {ref : Reference} (hs : b.Settled s) :
    Stays b s (superclass ref) fun k s' => Value.In (b.InReach s') (.cls k) := by
  refine (gives_read hs).bind fun v t ht hv => ?_
  cases v with
  | cls k => exact .pure ht.confined hv
  | _ => exact .fail

theorem stays_methodScope {parent : Option Class} (hs : b.Settled s)
    (hparent : ∀ k ∈ parent, Value.In (b.InReach s) (.cls k)) :
    Stays b s (methodScope parent) fun e s' => b.InReach s' (.env e) := by
  refine .bind_same (Run.gets_apply s State.current) ?_
  cases parent with
  | none => exact .pure hs.toConfined hs.current
  | some k =>
      refine (stays_newEnv hs.toConfined hs.current).bind fun inner s₁ h₁ hinner => ?_
      have hk : Value.In (b.InReach s₁) (.cls k) := Value.In.later (hparent k rfl) h₁.spares
      refine (stays_defineIn h₁.confined hinner hk).bind fun _ s₂ h₂ _ => ?_
      exact .pure h₂.confined (hinner.later h₂.spares)

theorem stays_declareClass {ref : Option Reference} {ds : List FunctionDecl} (hs : b.Settled s) :
    Stays b s (declareClass name ref ds) fun _ _ => True := by
  have hrest (parent : Option Class) {s : State} (hs : b.Settled s)
      (hparent : ∀ k ∈ parent, Value.In (b.InReach s) (.cls k)) : Stays b s (do
        define name.text .nil
        let closure ← methodScope parent
        let methods ← makeMethods closure ds
        let id ← freshIdentity
        define name.text (.cls (.extending ⟨id, name.text, methods⟩ parent))) fun _ _ => True := by
    refine (stays_define hs Value.in_nil).bind fun _ s₁ h₁ _ => ?_
    have hparent₁ : ∀ k ∈ parent, Value.In (b.InReach s₁) (.cls k) :=
      fun k hk => Value.In.later (hparent k hk) h₁.spares
    refine (stays_methodScope (hs.advance h₁) hparent₁).bind fun closure s₂ h₂ hclosure => ?_
    refine (stays_makeMethods h₂.confined hclosure).bind fun methods s₃ h₃ hmethods => ?_
    refine (stays_freshIdentity h₃.confined).bind fun id s₄ h₄ hid => ?_
    have hsettled : b.Settled s₄ := ((hs.advance h₁).advance (h₂.trans h₃)).advance h₄
    refine stays_define hsettled fun c hc => ?_
    rcases Class.mentions_extending.mp hc with hown | ⟨k, hk, hc⟩
    · rcases hown with rfl | ⟨x, f, hf, hc⟩
      · exact hid
      · exact (hmethods x f hf c hc).later h₄.spares
    · exact (hparent₁ k hk c hc).later (h₂.trans (h₃.trans h₄)).spares
  cases ref with
  | none => exact hrest none hs fun _ h => nomatch h
  | some ref =>
      refine Stays.bind (Q := fun parent s' => ∀ k ∈ parent, Value.In (b.InReach s') (.cls k))
        (Run.Ensures.map (stays_superclass hs) ?_) fun parent t ht hparent =>
          hrest parent (hs.advance ht) hparent
      rintro k t ⟨ht, hk⟩
      refine ⟨ht, fun k' hk' => ?_⟩
      cases hk'
      exact hk

theorem stays_checkArity {expected got line : Nat} (hs : b.Confined s) :
    Stays b s (checkArity expected got line) fun _ _ => True := by
  unfold checkArity
  by_cases h : got = expected
  · rw [if_pos h]
    exact .pure hs trivial
  · rw [if_neg h]
    exact .fail

theorem gives_askHost {f : Native} {arguments : List Value} {line : Nat} (hs : b.Confined s)
    (harguments : ∀ v ∈ arguments, v.In (b.InReach s)) : Gives b s (askHost f arguments line) := by
  have hcount : b.Advances s { s with nativeCalls := s.nativeCalls + 1 } :=
    hs.of_same_store ⟨rfl, rfl, rfl, rfl, rfl, .refl _⟩ rfl (Nat.le_refl _)
  refine .bind_same (Run.get_apply s) (.bind_of_ok rfl hcount ?_)
  cases hanswer : s.host.answer f s.nativeCalls arguments with
  | ok v =>
      refine .pure hcount.confined fun c hc => ?_
      obtain ⟨w, hw, hmentions⟩ := hs.discreet f _ arguments v hanswer c hc
      exact (harguments w hw c hmentions).later hcount.spares
  | error message => exact .fail

end Operations

end Eval

end ScopedScript
