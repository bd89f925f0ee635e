import ScopedScript.Proofs.Eval.Chronicle

/-!
# Operations of running programs keep the record true

Each operation leaves what is on record true, and what it puts on record is true from then on. No
operation binds a word that scopes declare of their own accord anew: what a program declares and
what it assigns to are ordinary names, and such a word is bound only in a scope that was made for
it.
-/

namespace ScopedScript

/-- Each of some moments, when the ones before it have gone on record after `h`, goes on record as
what is true. -/
def Told (n : NodeId) : List Moment → List Moment → Prop
  | _, [] => True
  | h, m :: ms => Chronicle n (h ++ [m]) m.state ∧ Told n (h ++ [m]) ms

theorem Told.append {n : NodeId} {h ms ms' : List Moment} :
    Told n h (ms ++ ms') ↔ Told n h ms ∧ Told n (h ++ ms) ms' := by
  induction ms generalizing h with
  | nil => simp [Told]
  | cons m ms ih => simp [Told, ih, and_assoc]

theorem Told.of_split {n : NodeId} {h ms front back : List Moment} {m : Moment} (ht : Told n h ms)
    (hsplit : ms = front ++ m :: back) : Chronicle n (h ++ front ++ [m]) m.state := by
  rw [hsplit, Told.append] at ht
  exact ht.2.1

namespace Eval

variable {α β : Type} {n : NodeId} {h : List Moment} {s : State} {m : Eval α} {f : α → Eval β}
variable {a : α} {moments : Moments} {rest : α → Moments}
variable {Q Q' : List Moment → α → State → Prop} {P : List Moment → β → State → Prop}

/-- What happens in a computation is true when it goes on record, and stays so however the
computation ends. If it ends well it does so as `Q` says. -/
structure Tells (n : NodeId) (h : List Moment) (s : State) (moments : Moments) (m : Eval α)
    (Q : List Moment → α → State → Prop) : Prop where
  told : Told n h (moments s)
  ends : m.Ensures s (fun a s' => Chronicle n (h ++ moments s) s' ∧ Q (h ++ moments s) a s')
    (fun _ s' => Chronicle n (h ++ moments s) s')

namespace Tells

theorem mono (hm : Tells n h s moments m Q) (hQ : ∀ h' a s', Q h' a s' → Q' h' a s') :
    Tells n h s moments m Q' where
  told := hm.told
  ends := hm.ends.mono (fun _ _ hend => ⟨hend.1, hQ _ _ _ hend.2⟩) (fun _ _ hend => hend)

theorem congr {moments' : Moments} {m' : Eval α} (hmoments : moments' s = moments s)
    (hrun : m' s = m s) (hm : Tells n h s moments m Q) : Tells n h s moments' m' Q where
  told := by
    rw [hmoments]
    exact hm.told
  ends := by
    unfold Run.Ensures
    rw [hmoments, hrun]
    exact hm.ends

/-- A computation in which nothing happens. -/
theorem quiet (hm : m.Ensures s (fun a s' => Chronicle n h s' ∧ Q h a s')
    (fun _ s' => Chronicle n h s')) : Tells n h s .none m Q where
  told := trivial
  ends := by
    simp only [Moments.none, List.append_nil]
    exact hm

theorem of_ok {t : State} (hm : m s = .ok a t) (ht : Chronicle n h t) (hQ : Q h a t) :
    Tells n h s .none m Q := .quiet (.of_ok hm ⟨ht, hQ⟩)

theorem of_fault {t : State} {halt : Halt} (hm : m s = .fault halt t) (ht : Chronicle n h t) :
    Tells n h s .none m Q := .quiet (.of_fault hm ht)

theorem pure (hs : Chronicle n h s) (hQ : Q h a s) : Tells n h s .none (Pure.pure a : Eval α) Q :=
  .of_ok rfl hs hQ

theorem fail {fault : RuntimeFault} {line : Nat} (hs : Chronicle n h s) :
    Tells n h s .none (Eval.fail fault line : Eval α) Q := .of_fault rfl hs

theorem outOfFuel : Tells n h s .none (Run.outOfFuel : Eval α) Q := .quiet (.of_exhausted rfl)

theorem mark {event : Event} (hevent : Chronicle n (h ++ [⟨event, s⟩]) s)
    (hm : Tells n (h ++ [⟨event, s⟩]) s moments m Q) : Tells n h s (moments.mark event) m Q where
  told := ⟨hevent, hm.told⟩
  ends := by
    have hends := hm.ends
    rw [List.append_assoc] at hends
    exact hends

theorem bind (hm : Tells n h s moments m Q) (hkeeps : KeepsPlace m)
    (hf : ∀ h' a s', h ⊆ h' → s.Grows s' → Chronicle n h' s' → Q h' a s' →
      Tells n h' s' (rest a) (f a) P) : Tells n h s (moments.andThen m rest) (m >>= f) P := by
  unfold Moments.andThen
  cases hrun : m s with
  | ok a s' =>
      obtain ⟨hs', hQ⟩ := hm.ends.ok hrun
      have hrest := hf _ a s' (List.subset_append_left _ _) ((hkeeps s).ok hrun) hs' hQ
      refine ⟨?_, .bind_of_ok hrun ?_⟩
      · simp only [hrun]
        exact Told.append.mpr ⟨hm.told, hrest.told⟩
      · simp only [hrun, ← List.append_assoc]
        exact hrest.ends
  | fault halt s' =>
      refine ⟨?_, .bind_of_fault hrun ?_⟩
      · simp only [hrun, List.append_nil]
        exact hm.told
      · simp only [hrun, List.append_nil]
        exact hm.ends.fault hrun
  | exhausted =>
      refine ⟨?_, .bind_of_exhausted hrun⟩
      simp only [hrun, List.append_nil]
      exact hm.told

/-- What happens in a computation whose result is only put to use. -/
theorem bind_quiet (hm : Tells n h s moments m Q) (hkeeps : KeepsPlace m)
    (hf : ∀ h' a s', h ⊆ h' → s.Grows s' → Chronicle n h' s' → Q h' a s' →
      Tells n h' s' .none (f a) P) : Tells n h s moments (m >>= f) P := by
  have hmoments : (moments.andThen m fun _ => .none) s = moments s := by
    unfold Moments.andThen
    cases m s <;> simp [Moments.none]
  have hboth : Tells n h s (moments.andThen m fun _ => .none) (m >>= f) P := hm.bind hkeeps hf
  refine ⟨?_, ?_⟩
  · have htold := hboth.told
    rwa [hmoments] at htold
  · have hends := hboth.ends
    rwa [hmoments] at hends

theorem after (hm : Tells n h s .none m Q) (hkeeps : KeepsPlace m)
    (hf : ∀ h' a s', h ⊆ h' → s.Grows s' → Chronicle n h' s' → Q h' a s' →
      Tells n h' s' (rest a) (f a) P) : Tells n h s (.after m rest) (m >>= f) P :=
  hm.bind hkeeps hf

theorem after_of_ok {t : State} (hm : m s = .ok a t) (hf : Tells n h t (rest a) (f a) P) :
    Tells n h s (.after m rest) (m >>= f) P := by
  unfold Moments.after Moments.andThen
  refine ⟨?_, .bind_of_ok hm ?_⟩
  · simp only [hm]
    exact hf.told
  · simp only [hm]
    exact hf.ends

theorem bind_of_ok {t : State} (hm : m s = .ok a t) (hf : Tells n h t .none (f a) P) :
    Tells n h s .none (m >>= f) P where
  told := hf.told
  ends := .bind_of_ok hm hf.ends

theorem inScope {scope : EnvId} (hs : Chronicle n h s)
    (hm : Tells n h { s with current := scope } moments m Q) (hkeeps : KeepsPlace m)
    (hQ : ∀ h' a s', Q h' a s' → Q' h' a { s' with current := s.current }) :
    Tells n h s (moments.inScope scope) (within scope m) Q' where
  told := hm.told
  ends := by
    have hback {h' : List Moment} {s' : State} (hgrows : State.Grows { s with current := scope } s')
        (hs' : Chronicle n h' s') : Chronicle n h' { s' with current := s.current } :=
      hs'.of_same rfl rfl rfl rfl (Nat.le_refl _) (hgrows.store_extends.hasEnv hs.current) hs'.last
    refine ensures_within ((hm.ends.and (hkeeps _)).mono ?_ ?_)
    · rintro a s' ⟨⟨hs', hend⟩, hgrows⟩
      exact ⟨hback hgrows hs', hQ _ a s' hend⟩
    · rintro halt s' ⟨hs', hgrows⟩
      exact hback hgrows hs'

end Tells

section Operations

variable {o : Object} {name : Name} {line : Nat}

theorem lookupAt_eq_ok {st : Store} {e : EnvId} {d : Nat} {x : String} {v : Value}
    (hv : st.lookupAt e d x = .ok v) :
    ∃ target, st.ancestor? e d = some target ∧ st.binding? target x = some v := by
  unfold Store.lookupAt at hv
  cases htarget : st.ancestor? e d with
  | none => simp [htarget] at hv
  | some target =>
      cases hbinding : st.binding? target x with
      | none => simp [htarget, hbinding] at hv
      | some w =>
          simp only [htarget, hbinding, Except.ok.injEq] at hv
          exact ⟨target, rfl, by rw [hbinding, hv]⟩

theorem Chronicle.lookupAt {e : EnvId} {d : Nat} {x : String} {v : Value} (hs : Chronicle n h s)
    (hv : s.store.lookupAt e d x = .ok v) : v.From h := by
  obtain ⟨target, _, hbinding⟩ := lookupAt_eq_ok hv
  exact hs.binding hbinding

theorem tells_readAt {e : EnvId} {d : Nat} (hs : Chronicle n h s) :
    Tells n h s .none (readAt e d name) fun h' v _ => v.From h' := by
  refine .bind_of_ok (Run.get_apply s) ?_
  cases hlookup : s.store.lookupAt e d name.text with
  | ok v => exact .pure hs (Chronicle.lookupAt hs hlookup)
  | error fault => cases fault <;> exact .fail hs

theorem tells_read {id : NodeId} (hs : Chronicle n h s) :
    Tells n h s .none (read id name) fun h' v _ => v.From h' := by
  refine .bind_of_ok (Run.get_apply s) ?_
  cases s.distances[id]? with
  | some d => exact tells_readAt hs
  | none =>
      cases hlookup : s.store.lookup? s.globals name.text with
      | some v =>
          obtain ⟨binder, _, hv⟩ := Option.bind_eq_some_iff.mp hlookup
          exact .pure hs (hs.binding hv)
      | none => exact .fail hs

theorem tells_assign {ref : Reference} {v : Value} (hs : Chronicle n h s)
    (hname : Ordinary ref.name.text) (hv : v.From h) :
    Tells n h s .none (assign ref v) fun _ _ _ => True := by
  unfold assign assignmentTarget
  rw [bind_assoc]
  refine .bind_of_ok (Run.get_apply s) ?_
  cases hdistance : s.distances[ref.id]? with
  | some d =>
      simp only
      cases s.store.ancestor? s.current d with
      | some target => exact .of_ok rfl (hs.define hname hv) trivial
      | none => exact .fail hs
  | none =>
      simp only
      cases s.store.binder? s.globals ref.name.text with
      | some target => exact .of_ok rfl (hs.define hname hv) trivial
      | none => exact .fail hs

/-- When a method becomes a function for an object, that goes on record. -/
theorem tells_bindMethod {method : Function} {rest : Function → Moments} {f : Function → Eval β}
    (hs : Chronicle n h s)
    (hmethod : ∃ d parent c, Happened h (.derives d parent c) ∧ c.Declares method)
    (ho : (Value.object o).From h)
    (hf : ∀ h' f' s', h ⊆ h' → s.Grows s' → Chronicle n h' s' → Happened h' (.binds method f' o) →
      f'.declaration = method.declaration → Tells n h' s' (rest f') (f f') P) :
    Tells n h s (bindMoments method o rest) (bindMethod method o >>= f) P := by
  obtain ⟨d, parent, c, hderives, x, hx⟩ := hmethod
  have hclosure : s.store.HasEnv method.closure :=
    ((hs.derived hderives).methods method ⟨x, hx⟩).hasEnv
  let store := (s.store.addEnv (some method.closure)).define s.store.nextEnv receiverWord
    (.object o)
  let f' : Function := { method with id := s.nextIdentity, closure := s.store.nextEnv }
  let s' : State := { s with store := store, nextIdentity := s.nextIdentity + 1 }
  have hs' : Chronicle n h s' := (hs.addEnv_define (x := receiverWord) hclosure ho).of_same
    rfl rfl rfl rfl (Nat.le_succ _) (hs.addEnv_define hclosure ho).current hs.last
  have hsub : h ⊆ h ++ [⟨.binds method f' o, s'⟩] := List.subset_append_left _ _
  have hbound : f'.BoundTo (h ++ [⟨.binds method f' o, s'⟩]) s' method o := by
    refine ⟨rfl, Store.binding?_define_self Store.hasEnv_nextEnv, ?_, ho.mono hsub,
      d, parent, c, hderives.mono hsub, x, hx⟩
    exact Store.enclosing?_define.trans Store.enclosing?_addEnv_nextEnv
  refine .after_of_ok (t := s') rfl (.mark (hs'.mark hbound) ?_)
  refine hf _ f' s' hsub ⟨rfl, rfl, rfl, rfl, rfl, Store.Extends.addEnv.trans .define⟩
    (hs'.mark hbound) ⟨_, List.mem_append_right h List.mem_cons_self, rfl⟩ rfl

/-- A method that is found is made a function for the object. -/
theorem tells_found {c : Class} {x : String} {method : Function} (hs : Chronicle n h s)
    (hc : c.From h) (ho : (Value.object o).From h) (hmethod : c.findMethod? x = some method) :
    Tells n h s (bindMoments method o fun _ => .none)
      (do return Value.function (← bindMethod method o)) fun h' v _ => v.From h' :=
  tells_bindMethod hs (hs.exists_declares hc hmethod) ho
    fun _ _ _ _ _ hs' hbinds _ => .pure hs' (Or.inr ⟨method, o, hbinds⟩)

theorem tells_property (hs : Chronicle n h s) (ho : (Value.object o).From h) :
    Tells n h s (propertyMoments o name) (property o name) fun h' v _ => v.From h' := by
  cases hfield : s.store.field? o.id name.text with
  | some v =>
      refine .congr (m := Pure.pure v) ?_ ?_ (.pure hs (hs.field hfield))
      · simp only [propertyMoments, hfield, Moments.none]
      · unfold property
        rw [Run.bind_of_ok (Run.get_apply s)]
        simp only [hfield]
  | none =>
      cases hmethod : o.cls.findMethod? name.text with
      | none =>
          refine .congr (m := Eval.fail (.undefinedProperty name.text) name.line)
            ?_ ?_ (.fail hs)
          · simp only [propertyMoments, hfield, hmethod, Moments.none]
          · unfold property
            rw [Run.bind_of_ok (Run.get_apply s)]
            simp only [hfield, hmethod]
      | some method =>
          refine .congr ?_ ?_ (tells_found hs ho.1 ho hmethod)
          · simp only [propertyMoments, hfield, hmethod]
          · unfold property
            rw [Run.bind_of_ok (Run.get_apply s)]
            simp only [hfield, hmethod]

theorem ensures_readAt {e : EnvId} {d : Nat} : (readAt e d name).Ensures s
    (fun v s' => s' = s ∧ s.store.lookupAt e d name.text = .ok v) (fun _ s' => s' = s) := by
  refine .bind_of_ok (Run.get_apply s) ?_
  cases hlookup : s.store.lookupAt e d name.text with
  | ok v => exact .of_ok rfl ⟨rfl, rfl⟩
  | error fault => cases fault <;> exact .of_fault rfl rfl

theorem readAt_of_lookupAt {e : EnvId} {d : Nat} {v : Value}
    (hv : s.store.lookupAt e d name.text = .ok v) : readAt e d name s = .ok v s := by
  unfold readAt
  rw [Run.bind_of_ok (Run.get_apply s)]
  simp only [hv]
  rfl

/-- Where a superclass and an object are found, the method is looked up in the superclass. -/
theorem inheritedMethod_of_lookups {id : NodeId} {method : Name} {inner : Nat} {c : Class}
    (hdistance : s.distances[id]? = some (inner + 1))
    (hsuper : s.store.lookupAt s.current (inner + 1) superclassWord = .ok (.cls c))
    (hreceiver : s.store.lookupAt s.current inner receiverWord = .ok (.object o)) :
    inheritedMethod id line method s = (match c.findMethod? method.text with
      | some found => do return Value.function (← bindMethod found o)
      | none => fail (.undefinedProperty method.text) method.line : Eval Value) s := by
  have hobject : readAt s.current inner ⟨receiverWord, line⟩ s = .ok (.object o) s :=
    readAt_of_lookupAt hreceiver
  unfold inheritedMethod
  rw [Run.bind_of_ok (Run.get_apply s)]
  simp only [hdistance]
  rw [Run.bind_of_ok (readAt_of_lookupAt hsuper)]
  exact Run.bind_of_ok hobject

/-- Where no method of the superclass is found, looking one up is a fault. -/
theorem ensures_inheritedMethod {id : NodeId} {method : Name}
    (hnone : inheritedIn? id method s = none) :
    (inheritedMethod id line method).Ensures s (fun _ _ => False) (fun _ s' => s' = s) := by
  refine .bind_of_ok (Run.get_apply s) ?_
  cases hdistance : s.distances[id]? with
  | none => exact .of_fault rfl rfl
  | some d =>
      refine ensures_readAt.bind ?_
      rintro v _ ⟨rfl, hv⟩
      cases v with
      | cls c =>
          cases d with
          | zero => exact .of_fault rfl rfl
          | succ inner =>
              refine ensures_readAt.bind ?_
              rintro w _ ⟨rfl, hw⟩
              cases w with
              | object o =>
                  cases hmethod : c.findMethod? method.text with
                  | some found => simp [inheritedIn?, hdistance, hv, hw, hmethod] at hnone
                  | none =>
                      simp only
                      exact .of_fault rfl rfl
              | _ => exact .of_fault rfl rfl
      | _ => exact .of_fault rfl rfl

theorem tells_inheritedMethod {id : NodeId} {method : Name} (hs : Chronicle n h s) :
    Tells n h s (inheritedMoments id method) (inheritedMethod id line method)
      fun h' v _ => v.From h' := by
  cases hfound : inheritedIn? id method s with
  | none =>
      refine .congr (m := inheritedMethod id line method) ?_ rfl (.quiet ?_)
      · simp only [inheritedMoments, hfound, Moments.none]
      · refine (ensures_inheritedMethod hfound).mono (fun _ _ hfalse => hfalse.elim) ?_
        rintro _ _ rfl
        exact hs
  | some p =>
      obtain ⟨found, o⟩ := p
      unfold inheritedIn? at hfound
      split at hfound
      · rename_i inner hdistance
        split at hfound
        · rename_i c o' hsuper hreceiver
          obtain ⟨_, hmethod, heq⟩ := Option.map_eq_some_iff.mp hfound
          cases heq
          refine .congr ?_ ?_ (tells_found hs (Chronicle.lookupAt hs hsuper)
            (Chronicle.lookupAt hs hreceiver) hmethod)
          · simp only [inheritedMoments, inheritedIn?, hdistance, hsuper, hreceiver, hmethod,
              Option.map_some]
          · rw [inheritedMethod_of_lookups hdistance hsuper hreceiver]
            simp only [hmethod]
        · cases hfound
      · cases hfound

theorem tells_checkArity {expected got : Nat} (hs : Chronicle n h s) :
    Tells n h s .none (checkArity expected got line) fun _ _ _ => True := by
  unfold checkArity
  split
  · exact .pure hs trivial
  · exact .fail hs

theorem tells_ofOperation {result : Except RuntimeFault Value} (hs : Chronicle n h s)
    (hresult : ∀ v, result = .ok v → v.From h) :
    Tells n h s .none (ofOperation result line) fun h' v _ => v.From h' := by
  cases result with
  | ok v => exact .pure hs (hresult v rfl)
  | error fault => exact .fail hs

theorem from_unary {op : UnaryOp} {v w : Value} (hw : op.apply v = .ok w) : w.From h := by
  cases op <;> cases v <;> cases hw <;> trivial

theorem from_binary {op : BinaryOp} {v w u : Value} (hu : op.apply v w = .ok u) : u.From h := by
  cases op <;> cases v <;> cases w <;> cases hu <;> trivial

/-- The clock shows a number. -/
theorem tells_askHost {g : Native} {arguments : List Value} (hs : Chronicle n h s) :
    Tells n h s .none (askHost g arguments line) fun h' v _ => v.From h' := by
  obtain ⟨readings, hhost⟩ := hs.grounded.clocked
  have hs' : Chronicle n h { s with nativeCalls := s.nativeCalls + 1 } :=
    hs.of_same rfl rfl rfl rfl (Nat.le_refl _) hs.current hs.last
  refine .bind_of_ok (Run.get_apply s) (.bind_of_ok rfl ?_)
  cases hanswer : s.host.answer g s.nativeCalls arguments with
  | error message => exact .fail hs'
  | ok v =>
      rw [hhost] at hanswer
      cases hanswer
      exact .pure hs' trivial

theorem tells_emit {text : String} (hs : Chronicle n h s) :
    Tells n h s .none (emit text) fun _ _ _ => True := by
  have hs' (sink : Sink) : Chronicle n h { s with sink := sink } :=
    hs.of_same rfl rfl rfl rfl (Nat.le_refl _) hs.current hs.last
  exact .quiet (ensures_emit (fun sink _ => ⟨hs' sink, trivial⟩) fun _ sink _ => hs' sink)

/-- Looking a variable up changes nothing. -/
theorem unchanged_read (id : NodeId) (name : Name) :
    Run.Keeps (fun s s' => s' = s) (read id name) := by
  intro s
  refine .bind_of_ok (Run.get_apply s) ?_
  cases s.distances[id]? with
  | some d => exact ensures_readAt.mono (fun _ _ hend => hend.1) (fun _ _ hend => hend)
  | none =>
      cases hlookup : s.store.lookup? s.globals name.text with
      | some v =>
          simp only
          exact .of_ok rfl rfl
      | none =>
          simp only
          exact .of_fault rfl rfl

theorem unchanged_parentOf (ref : Option Reference) :
    Run.Keeps (fun s s' => s' = s) (parentOf ref) := by
  cases ref with
  | none => exact fun _ => .of_ok rfl rfl
  | some ref =>
      intro s
      have hsuperclass : (superclass ref).Ensures s (fun _ s' => s' = s) (fun _ s' => s' = s) := by
        refine (unchanged_read _ _ s).bind ?_
        rintro v _ rfl
        cases v with
        | cls c => exact .of_ok rfl rfl
        | _ => exact .of_fault rfl rfl
      exact hsuperclass.map (P := fun _ s' => s' = s) fun _ _ hend => hend

/-- The superclass of a class is what its name means when the declaration is executed. -/
theorem tells_parentOf {ref : Option Reference} (hs : Chronicle n h s) :
    Tells n h s .none (parentOf ref) fun h' parent s' =>
      parentOf ref s = .ok parent s ∧ s' = s ∧ parent.isSome = ref.isSome ∧
        ∀ c ∈ parent, c.From h' := by
  have hfrom : (parentOf ref).Ensures s
      (fun parent _ => parent.isSome = ref.isSome ∧ ∀ c ∈ parent, c.From h)
      (fun _ _ => True) := by
    cases ref with
    | none => exact .of_ok rfl ⟨rfl, fun _ hc => by cases hc⟩
    | some ref =>
        have hsuperclass : (superclass ref).Ensures s (fun c _ => c.From h) (fun _ _ => True) := by
          have hread : Tells n h s .none (read ref.id ref.name) fun h' v _ => v.From h' :=
            tells_read hs
          refine (hread.ends.mono (fun _ _ hend => hend) (fun _ _ _ => trivial)).bind ?_
          rintro v s' ⟨_, hv⟩
          rw [Moments.none, List.append_nil] at hv
          cases v with
          | cls c => exact .of_ok rfl hv
          | _ => exact .of_fault rfl trivial
        refine hsuperclass.map fun c s' hc => ⟨rfl, ?_⟩
        rintro _ ⟨⟩
        exact hc
  refine .quiet ?_
  cases hrun : parentOf ref s with
  | ok parent s' =>
      obtain rfl := (unchanged_parentOf ref s).ok hrun
      exact .of_ok hrun ⟨hs, rfl, rfl, hfrom.ok hrun⟩
  | fault halt s' =>
      obtain rfl := (unchanged_parentOf ref s).fault hrun
      exact .of_fault hrun hs
  | exhausted => exact .of_exhausted hrun

theorem lastNamed?_cons (d : FunctionDecl) (ds : List FunctionDecl) (x : String) :
    lastNamed? (d :: ds) x = (lastNamed? ds x).or (if d.name.text = x then some d else none) := by
  unfold lastNamed?
  by_cases hx : d.name.text = x
  · rw [List.filter_cons_of_pos (by simpa using hx), List.getLast?_cons, if_pos hx]
    cases (ds.filter fun d => d.name.text == x).getLast? <;> rfl
  · rw [List.filter_cons_of_neg (by simpa using hx), if_neg hx, Option.or_none]

/-- The functions that declarations make are declared there, each in the same scope, and the last
one of a name counts. -/
theorem ensures_makeMethods {closure : EnvId} {ds : List FunctionDecl} :
    (makeMethods closure ds).Ensures s (fun methods s' =>
      (∃ id, s.nextIdentity ≤ id ∧ s' = { s with nextIdentity := id }) ∧
      (∀ x f, methods.get? x = some f → f.closure = closure ∧ f.declaration ∈ ds ∧
        f.isInitializer = (f.name == initializerName)) ∧
      ∀ x, (methods.get? x).map Function.declaration = lastNamed? ds x) (fun _ _ => False) := by
  have hgo (made : Bindings Function) (s : State) : (makeMethods.go closure made ds).Ensures s
      (fun methods s' => (∃ id, s.nextIdentity ≤ id ∧ s' = { s with nextIdentity := id }) ∧
        (∀ x f, methods.get? x = some f → made.get? x = some f ∨
          f.closure = closure ∧ f.declaration ∈ ds ∧
            f.isInitializer = (f.name == initializerName)) ∧
        ∀ x, (methods.get? x).map Function.declaration =
          (lastNamed? ds x).or ((made.get? x).map Function.declaration))
      (fun _ _ => False) := by
    induction ds generalizing made s with
    | nil => exact .of_ok rfl ⟨⟨_, Nat.le_refl _, rfl⟩, fun _ _ hf => Or.inl hf, fun _ => rfl⟩
    | cons d ds ih =>
        refine .bind_of_ok rfl ((ih _ _).mono ?_ (fun _ _ hfalse => hfalse))
        rintro methods s' ⟨⟨id, hle, rfl⟩, hmethods, hlast⟩
        refine ⟨⟨id, Nat.le_of_succ_le hle, rfl⟩, fun x f hf => ?_, fun x => ?_⟩
        · rcases hmethods x f hf with hmade | ⟨hclosure, hmem, hinitializer⟩
          · rw [Bindings.get?_insert] at hmade
            by_cases hx : d.name.text = x
            · rw [if_pos hx] at hmade
              cases hmade
              exact Or.inr ⟨rfl, List.mem_cons_self, rfl⟩
            · rw [if_neg hx] at hmade
              exact Or.inl hmade
          · exact Or.inr ⟨hclosure, List.mem_cons_of_mem d hmem, hinitializer⟩
        · rw [hlast x, lastNamed?_cons, Option.or_assoc, Bindings.get?_insert]
          by_cases hx : d.name.text = x <;> simp [hx]
  refine (hgo .empty s).mono ?_ (fun _ _ hfalse => hfalse)
  rintro methods s' ⟨hs', hmethods, hlast⟩
  refine ⟨hs', fun x f hf => (hmethods x f hf).resolve_left (by simp), fun x => ?_⟩
  rw [hlast x]
  simp

end Operations

end Eval

end ScopedScript
