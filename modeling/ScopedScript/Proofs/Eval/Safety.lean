import ScopedScript.Proofs.Eval.Access
import ScopedScript.Proofs.Eval.Invariant

/-!
# Operations of running programs are safe

From a sound state, each operation ends in a sound one, and a fault says nothing unlawful about the
names it is about. Names that are read find their scopes: the chain of the current scope matches the
scopes that enclose the place where the name stands.
-/

namespace ScopedScript

/-- A sound state, at a place of a program with given scopes around it. -/
structure State.SoundAt (n : NodeId) (s : State) (setting : Setting) (Γ : Scopes) : Prop where
  sound : s.Sound n
  «matches» : s.Matches s.current Γ
  nested : Γ.Nested
  setting_fits : setting.FitsIn Γ

namespace State.SoundAt

variable {n : NodeId} {s s' : State} {setting : Setting} {Γ : Scopes}

theorem later (h : s.SoundAt n setting Γ) (hgrows : s.Grows s') (hsound : s'.Sound n) :
    s'.SoundAt n setting Γ where
  sound := hsound
  «matches» := by
    rw [hgrows.current_eq]
    exact h.matches.mono (.of_grows (n := n) hgrows)
  nested := h.nested
  setting_fits := h.setting_fits

end State.SoundAt

theorem Fits.later {n : NodeId} {s s' : State} {P : Prop} {rs : List Record}
    (h : Fits n s.distances P rs) (hgrows : s.Grows s') : Fits n s'.distances P rs := by
  rwa [hgrows.distances_eq]

theorem Value.Sound.later {n : NodeId} {s s' : State} {v : Value} (h : v.Sound n s)
    (hgrows : s.Grows s') : v.Sound n s' := h.mono (Nat.le_refl n) (.of_grows hgrows)

namespace State.Sound

variable {n : NodeId} {s : State} {e : EnvId} {o : ObjectId} {x : String} {v : Value}

/-- Soundness depends on what the state of a run holds, not on where the run is. -/
theorem of_same {s' : State} (h : s.Sound n) (hstore : s'.store = s.store)
    (hglobals : s'.globals = s.globals) (hdistances : s'.distances = s.distances)
    (hhost : s'.host = s.host) : s'.Sound n := by
  refine h.mono (Nat.le_refl n) ⟨hglobals, ?_, ?_⟩ hhost ?_ ?_
  · rw [hstore]
    exact .refl _
  · rw [hdistances]
    exact .refl _ _
  · intro e x v hv
    rw [hstore] at hv
    exact Or.inl hv
  · intro o x v hv
    rw [hstore] at hv
    exact Or.inl hv

theorem define (h : s.Sound n) (hv : v.Sound n { s with store := s.store.define e x v }) :
    State.Sound n { s with store := s.store.define e x v } := by
  refine h.mono (Nat.le_refl n) (.of_store .define) rfl ?_ (fun _ _ _ hw => Or.inl hw)
  intro e' y w hw
  simp only [Store.binding?_define] at hw
  by_cases hbound : e = e' ∧ x = y ∧ s.store.HasEnv e
  · rw [if_pos hbound] at hw
    cases hw
    exact Or.inr hv
  · rw [if_neg hbound] at hw
    exact Or.inl hw

theorem define_of_sound (h : s.Sound n) (hv : v.Sound n s) :
    State.Sound n { s with store := s.store.define e x v } :=
  h.define (hv.mono (Nat.le_refl n) (.of_store .define))

theorem defineAll {names : List String} {values : List Value} (h : s.Sound n)
    (hvalues : ∀ v ∈ values, v.Sound n s) :
    State.Sound n { s with store := s.store.defineAll e names values } := by
  induction names generalizing s values with
  | nil => exact h
  | cons name names ih =>
      cases values with
      | nil => exact h
      | cons v values =>
          obtain ⟨hv, hrest⟩ := List.forall_mem_cons.mp hvalues
          refine ih (h.define_of_sound hv) fun w hw => ?_
          exact (hrest w hw).mono (Nat.le_refl n) (.of_store .define)

theorem addEnv {outer : Option EnvId} (h : s.Sound n) :
    State.Sound n { s with store := s.store.addEnv outer } := by
  refine h.mono (Nat.le_refl n) (.of_store .addEnv) rfl ?_ (fun _ _ _ hw => Or.inl hw)
  intro e x w hw
  simp only [Store.binding?_addEnv] at hw
  exact Or.inl hw

theorem addObject (h : s.Sound n) : State.Sound n { s with store := s.store.addObject } := by
  refine h.mono (Nat.le_refl n) (.of_store .addObject) rfl (fun _ _ _ hw => Or.inl hw) ?_
  intro o x w hw
  simp only [Store.field?_addObject] at hw
  exact Or.inl hw

theorem setField (h : s.Sound n) (hv : v.Sound n s) :
    State.Sound n { s with store := s.store.setField o x v } := by
  have hlater : s.Precedes n { s with store := s.store.setField o x v } := .of_store .setField
  refine h.mono (Nat.le_refl n) hlater rfl (fun _ _ _ hw => Or.inl hw) ?_
  intro o' y w hw
  simp only [Store.field?_setField] at hw
  by_cases hset : o = o' ∧ x = y ∧ s.store.HasObject o
  · rw [if_pos hset] at hw
    cases hw
    exact Or.inr (hv.mono (Nat.le_refl n) hlater)
  · rw [if_neg hset] at hw
    exact Or.inl hw

end State.Sound

namespace Eval

variable {α β : Type} {n : NodeId} {s s' : State} {m : Eval α} {f : α → Eval β} {a : α}
variable {Q Q' : α → State → Prop} {P : β → State → Prop}

/-- However `m` ends, it ends in a sound state: well, as `Q` says, or with a lawful fault. -/
def Safe (n : NodeId) (s : State) (m : Eval α) (Q : α → State → Prop) : Prop :=
  m.Ensures s (fun a s' => s'.Sound n ∧ Q a s') (fun h s' => s'.Sound n ∧ h.Lawful s')

namespace Safe

theorem mono (h : Safe n s m Q) (hQ : ∀ a s', s'.Sound n → Q a s' → Q' a s') : Safe n s m Q' :=
  Run.Ensures.mono h (fun a s' h => ⟨h.1, hQ a s' h.1 h.2⟩) (fun _ _ h => h)

theorem grows (h : Safe n s m Q) (hkeeps : KeepsPlace m) :
    Safe n s m fun a s' => s.Grows s' ∧ Q a s' :=
  Run.Ensures.mono (Run.Ensures.and h (hkeeps s)) (fun _ _ h => ⟨h.1.1, h.2, h.1.2⟩)
    (fun _ _ h => h.1)

theorem bind (h : Safe n s m Q) (hkeeps : KeepsPlace m)
    (hf : ∀ a s', s.Grows s' → s'.Sound n → Q a s' → Safe n s' (f a) P) :
    Safe n s (m >>= f) P :=
  Run.Ensures.bind (h.grows hkeeps) fun a s' h => hf a s' h.2.1 h.1 h.2.2

theorem of_ok {t : State} (h : m s = .ok a t) (ht : t.Sound n) (hQ : Q a t) : Safe n s m Q :=
  Run.Ensures.of_ok h ⟨ht, hQ⟩

theorem bind_of_ok {t : State} (h : m s = .ok a t) (hf : Safe n t (f a) P) :
    Safe n s (m >>= f) P :=
  Run.Ensures.bind_of_ok h hf

theorem fail {fault : RuntimeFault} {line : Nat} (hs : s.Sound n)
    (hlawful : (Halt.runtime fault line).Lawful s) : Safe n s (Eval.fail fault line : Eval α) Q :=
  Run.Ensures.of_fault rfl ⟨hs, hlawful⟩

theorem outOfFuel : Safe n s (Run.outOfFuel : Eval α) Q := Run.Ensures.of_exhausted rfl

theorem pure (hs : s.Sound n) (hQ : Q a s) : Safe n s (Pure.pure a : Eval α) Q :=
  .of_ok rfl hs hQ

/-- Where the run is does not matter for what is safe in another scope. -/
theorem within {scope : EnvId} (h : Safe n { s with current := scope } m Q)
    (hQ : ∀ a s', Q a s' → Q' a { s' with current := s.current }) :
    Safe n s (Eval.within scope m) Q' := by
  have hback {s' : State} (hs : s'.Sound n) : State.Sound n { s' with current := s.current } :=
    hs.of_same rfl rfl rfl rfl
  refine ensures_within (Run.Ensures.mono h ?_ ?_)
  · intro a s' hend
    exact ⟨hback hend.1, hQ a s' hend.2⟩
  · intro halt s' hend
    exact ⟨hback hend.1, hend.2⟩

end Safe

/-- Reading a name in a scope that binds it is safe. -/
theorem safe_readAt {e target : EnvId} {d : Nat} {name : Name} (hs : s.Sound n)
    (htarget : s.store.ancestor? e d = some target) (hbinds : s.store.Binds target name.text) :
    Safe n s (readAt e d name) fun v s' => v.Sound n s' := by
  obtain ⟨v, hv⟩ := Store.binds_iff.mp hbinds
  exact .of_ok (readAt_of_ancestor? htarget hv) hs (hs.binding hv)

/-- A name that is not found from a scope on is not bound there. -/
theorem not_binds_of_binder? {e : EnvId} {x : String} (h : s.store.binder? e x = none) :
    ¬s.store.Binds e x := by
  intro hbinds
  rw [Store.binder?_of_binds hbinds] at h
  cases h

theorem not_binds_of_lookup? {e : EnvId} {x : String} (h : s.store.lookup? e x = none) :
    ¬s.store.Binds e x := by
  intro hbinds
  obtain ⟨v, hv⟩ := Store.binds_iff.mp hbinds
  unfold Store.lookup? at h
  rw [Store.binder?_of_binds hbinds, Option.bind_some, hv] at h
  cases h

/-- Reading a reference is safe where its name can be read. -/
theorem safe_read {setting : Setting} {Γ : Scopes} {id : NodeId} {name : Name}
    (hs : s.SoundAt n setting Γ) (hreadable : Γ.Readable name.text)
    (hrecord : s.distances[id]? = Γ.locate? name.text) :
    Safe n s (read id name) fun v s' => v.Sound n s' := by
  unfold read
  refine .bind_of_ok (Run.get_apply s) ?_
  rw [hrecord]
  cases hlocate : Γ.locate? name.text with
  | some d =>
      obtain ⟨scope, hscope, hlookup⟩ := hs.nested.exists_lookup_of_locate? hreadable hlocate
      obtain ⟨target, htarget, hbinds⟩ := hs.matches.exists_ancestor? hscope
      exact safe_readAt hs.sound htarget (hbinds _ hlookup)
  | none =>
      simp only
      cases hlookup : s.store.lookup? s.globals name.text with
      | some v =>
          refine .pure hs.sound ?_
          obtain ⟨binder, _, hv⟩ := Option.bind_eq_some_iff.mp hlookup
          exact hs.sound.binding hv
      | none => exact .fail hs.sound (not_binds_of_lookup? hlookup)

/-- Assigning to a reference is safe. -/
theorem safe_assign {setting : Setting} {Γ : Scopes} {ref : Reference} {v : Value}
    (hs : s.SoundAt n setting Γ) (hrecord : s.distances[ref.id]? = Γ.locate? ref.name.text)
    (hv : v.Sound n s) : Safe n s (assign ref v) fun _ _ => True := by
  unfold assign assignmentTarget
  rw [bind_assoc]
  refine .bind_of_ok (Run.get_apply s) ?_
  simp only [hrecord]
  cases hlocate : Γ.locate? ref.name.text with
  | some d =>
      obtain ⟨scope, hscope, _⟩ := Scopes.getElem?_of_locate? hlocate
      obtain ⟨target, htarget, _⟩ := hs.matches.exists_ancestor? hscope
      simp only [htarget]
      exact .of_ok rfl (hs.sound.define_of_sound hv) trivial
  | none =>
      simp only
      cases hbinder : s.store.binder? s.globals ref.name.text with
      | some target => exact .of_ok rfl (hs.sound.define_of_sound hv) trivial
      | none => exact .fail hs.sound (not_binds_of_binder? hbinder)

/-- A method becomes a sound function when it is bound to an object. -/
theorem safe_bindMethod {method : Function} {o : Object} (hs : s.Sound n)
    (hmethod : method.SoundMethod n s) (ho : o.cls.Sound n s) :
    Safe n s (bindMethod method o) fun f s' =>
      f.Sound n s' ∧ f.declaration = method.declaration := by
  obtain ⟨setting, Γ, hmatches, hknown⟩ := hmethod
  let store := (s.store.addEnv (some method.closure)).define s.store.nextEnv receiverWord
    (.object o)
  have hlater : s.Precedes n
      { s with store := store, nextIdentity := s.nextIdentity + 1 } :=
    ⟨rfl, Store.Extends.addEnv.trans .define, .refl _ _⟩
  have ho' : Value.Sound n { s with store := s.store.addEnv (some method.closure) } (.object o) :=
    Class.Sound.mono ho (Nat.le_refl n) (.of_store .addEnv)
  have hsound : State.Sound n { s with store := store } := hs.addEnv.define_of_sound ho'
  refine .of_ok rfl (hsound.of_same rfl rfl rfl rfl)
    ⟨⟨⟨setting, Scopes.receiverScope :: Γ, ?_, ?_⟩, ?_⟩, rfl⟩
  · exact hmatches.addEnv_define.mono (n := n) ⟨rfl, .refl _, .refl _ _⟩
  · exact hknown.mono (Nat.le_refl n) hlater
  · exact fun _ => Store.binds_iff.mpr ⟨_, Store.binding?_define_self Store.hasEnv_nextEnv⟩

/-- The method that a sound class has under a name is sound. -/
theorem soundMethod_of_findMethod? {c : Class} {x : String} {method : Function}
    (hc : c.Sound n s) (hmethod : c.findMethod? x = some method) : method.SoundMethod n s := by
  obtain ⟨layer, hlayer, hget⟩ := List.exists_of_findSome?_eq_some hmethod
  exact hc layer hlayer x method hget

theorem safe_property {o : Object} {name : Name} (hs : s.Sound n) (ho : o.cls.Sound n s) :
    Safe n s (property o name) fun v s' => v.Sound n s' := by
  refine .bind_of_ok (Run.get_apply s) ?_
  cases hfield : s.store.field? o.id name.text with
  | some value => exact .pure hs (hs.field hfield)
  | none =>
      cases hmethod : o.cls.findMethod? name.text with
      | some method =>
          refine (safe_bindMethod hs (soundMethod_of_findMethod? ho hmethod) ho).bind
            (keeps_bindMethod _ _) ?_
          intro f s' _ hs' hf
          exact .pure hs' hf.1
      | none => exact .fail hs trivial

/-- A method of the superclass is found at the distance that is known of `super`: the scope there
binds `super`, and the one just inside it `this`. -/
theorem safe_inheritedMethod {setting : Setting} {Γ : Scopes} {id : NodeId} {line : Nat}
    {method : Name} (hs : s.SoundAt n setting Γ) (hkind : setting.classKind = .subclass)
    (hrecord : s.distances[id]? = Γ.locate? superclassWord) :
    Safe n s (inheritedMethod id line method) fun v s' => v.Sound n s' := by
  obtain ⟨d, hlocate⟩ := hs.setting_fits.exists_locate? hkind
  obtain ⟨inner, rfl, hreceiver, hsuper⟩ := hs.nested.of_locate?_superclass hlocate
  obtain ⟨e, he, hbinds⟩ := hs.matches.exists_ancestor? hreceiver
  obtain ⟨e', he', hbinds'⟩ := hs.matches.exists_ancestor? hsuper
  obtain ⟨v, hv⟩ := Store.binds_iff.mp (hbinds receiverWord (by decide))
  obtain ⟨w, hw⟩ := Store.binds_iff.mp (hbinds' superclassWord (by decide))
  unfold inheritedMethod
  refine .bind_of_ok (Run.get_apply s) ?_
  simp only [hrecord, hlocate]
  refine .bind_of_ok (readAt_of_ancestor? he' hw) ?_
  cases w with
  | cls superclass =>
      simp only
      refine .bind_of_ok (readAt_of_ancestor? he hv) ?_
      cases v with
      | object o =>
          have hsuperclass : superclass.Sound n s := hs.sound.binding hw
          have ho : o.cls.Sound n s := hs.sound.binding hv
          cases hmethod : superclass.findMethod? method.text with
          | some found =>
              simp only
              refine (safe_bindMethod hs.sound (soundMethod_of_findMethod? hsuperclass hmethod)
                ho).bind (keeps_bindMethod _ _) ?_
              intro f s' _ hs' hf
              exact .pure hs' hf.1
          | none =>
              simp only
              exact .fail hs.sound trivial
      | _ => exact .fail hs.sound trivial
  | _ => exact .fail hs.sound trivial

theorem safe_superclass {setting : Setting} {Γ : Scopes} {ref : Reference}
    (hs : s.SoundAt n setting Γ) (hreadable : Γ.Readable ref.name.text)
    (hrecord : s.distances[ref.id]? = Γ.locate? ref.name.text) :
    Safe n s (superclass ref) fun c s' => c.Sound n s' := by
  refine (safe_read hs hreadable hrecord).bind (keeps_read _ _) ?_
  intro v s' _ hs' hv
  cases v with
  | cls c => exact .pure hs' hv
  | _ => exact .fail hs' trivial

/-- The scopes around the methods of a class, as far as they depend on its superclass. -/
def methodScopes (parent : Option Class) (Γ : Scopes) : Scopes :=
  match parent with
  | none => Γ
  | some _ => Scopes.superclassScope :: Γ

theorem safe_methodScope {Γ : Scopes} {parent : Option Class} (hs : s.Sound n)
    (hmatches : s.Matches s.current Γ) (hparent : ∀ c ∈ parent, c.Sound n s) :
    Safe n s (methodScope parent) fun e s' => s'.Matches e (methodScopes parent Γ) := by
  cases parent with
  | none => exact .of_ok rfl hs hmatches
  | some c =>
      have hc : Value.Sound n { s with store := s.store.addEnv (some s.current) } (.cls c) :=
        Class.Sound.mono (hparent c rfl) (Nat.le_refl n) (.of_store .addEnv)
      exact .of_ok rfl (hs.addEnv.define_of_sound hc) hmatches.addEnv_define

/-- The functions that declarations make are declared there and have the given closure. -/
theorem safe_makeMethods {closure : EnvId} {ds : List FunctionDecl} (hs : s.Sound n) :
    Safe n s (makeMethods closure ds) fun methods _ =>
      ∀ x f, methods.get? x = some f → f.closure = closure ∧ f.declaration ∈ ds := by
  have hgo (made : Bindings Function) {s : State} (hs : s.Sound n) :
      Safe n s (makeMethods.go closure made ds) fun methods _ =>
        ∀ x f, methods.get? x = some f →
          made.get? x = some f ∨ f.closure = closure ∧ f.declaration ∈ ds := by
    induction ds generalizing made s with
    | nil => exact .pure hs fun _ _ h => Or.inl h
    | cons d ds ih =>
        have hs' : State.Sound n { s with nextIdentity := s.nextIdentity + 1 } :=
          hs.of_same rfl rfl rfl rfl
        refine .bind_of_ok rfl ?_
        refine (ih _ hs').mono ?_
        intro methods s' _ hmethods x f hf
        rcases hmethods x f hf with hmade | ⟨hclosure, hmem⟩
        · rw [Bindings.get?_insert] at hmade
          by_cases hx : d.name.text = x
          · rw [if_pos hx] at hmade
            cases hmade
            exact Or.inr ⟨rfl, List.mem_cons_self⟩
          · rw [if_neg hx] at hmade
            exact Or.inl hmade
        · exact Or.inr ⟨hclosure, List.mem_cons_of_mem d hmem⟩
  refine (hgo .empty hs).mono ?_
  intro methods s' _ hmethods x f hf
  exact (hmethods x f hf).resolve_left (by simp)

theorem safe_checkArity {expected got line : Nat} (hs : s.Sound n) :
    Safe n s (checkArity expected got line) fun _ _ => got = expected := by
  unfold checkArity
  by_cases h : got = expected
  · rw [if_pos h]
    exact .pure hs h
  · rw [if_neg h]
    exact .fail hs trivial

theorem safe_askHost {f : Native} {arguments : List Value} {line : Nat} (hs : s.Sound n) :
    Safe n s (askHost f arguments line) fun v s' => v.Sound n s' := by
  have hs' : State.Sound n { s with nativeCalls := s.nativeCalls + 1 } :=
    hs.of_same rfl rfl rfl rfl
  refine .bind_of_ok (Run.get_apply s) (.bind_of_ok rfl ?_)
  cases hanswer : s.host.answer f s.nativeCalls arguments with
  | ok value => exact .pure hs' (hs.answer hanswer _ _)
  | error message => exact .fail hs' trivial

/-- An operation on values gives a plain value, or a fault that is about no name. -/
def PlainResult : Except RuntimeFault Value → Prop
  | .ok v => ∀ n s, v.Sound n s
  | .error fault => ∀ line s, (Halt.runtime fault line).Lawful s

theorem plainResult_unary (op : UnaryOp) (v : Value) : PlainResult (op.apply v) := by
  cases op <;> cases v <;> exact fun _ _ => trivial

theorem plainResult_binary (op : BinaryOp) (v w : Value) : PlainResult (op.apply v w) := by
  cases op <;> cases v <;> cases w <;> exact fun _ _ => trivial

theorem safe_ofOperation {result : Except RuntimeFault Value} {line : Nat} (hs : s.Sound n)
    (hresult : PlainResult result) :
    Safe n s (ofOperation result line) fun v s' => v.Sound n s' := by
  cases result with
  | ok v => exact .pure hs (hresult n s)
  | error fault => exact .fail hs (hresult line s)

theorem safe_emit {text : String} (hs : s.Sound n) : Safe n s (emit text) fun _ _ => True := by
  have hs' (sink : Sink) : State.Sound n { s with sink := sink } := hs.of_same rfl rfl rfl rfl
  exact ensures_emit (fun sink _ => ⟨hs' sink, trivial⟩) fun _ sink _ => ⟨hs' sink, trivial⟩

end Eval

end ScopedScript
