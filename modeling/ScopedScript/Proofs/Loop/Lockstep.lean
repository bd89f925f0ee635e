import ScopedScript.Proofs.Loop.SideBySide

/-!
# Operations of coupled runs

From coupled states, the same operation ends alike in both runs: well, with results that are alike,
or with the same fault, and in states that are coupled again. The runs may be given different
amounts of fuel, so one of them may run out of it before the other one ends.
-/

namespace ScopedScript

/-- The run that may be given less fuel. -/
inductive Side where
  | first | second

/-- The run that may be given less fuel has run out of it. -/
def Side.Spent {α β : Type} (side : Side) (o : Outcome Halt State α) (o' : Outcome Halt State β) :
    Prop :=
  match side with
  | .first => o = .exhausted
  | .second => o' = .exhausted

theorem Side.Spent.imp {α β γ δ : Type} {side : Side} {o : Outcome Halt State α}
    {o' : Outcome Halt State β} {p : Outcome Halt State γ} {p' : Outcome Halt State δ}
    (h : side.Spent o o') (hfirst : o = .exhausted → p = .exhausted)
    (hsecond : o' = .exhausted → p' = .exhausted) : side.Spent p p' := by
  cases side with
  | first => exact hfirst h
  | second => exact hsecond h

/-- How coupled runs end alike. -/
inductive Outcome.Alike {α β : Type} (T : Tables) (w : World) (Q : World → α → β → Prop) :
    Outcome Halt State α → Outcome Halt State β → Prop where
  | ok {w' : World} {a : α} {b : β} : w.Advances w' → w'.Coupled T → Q w' a b →
      Outcome.Alike T w Q (.ok a w'.first) (.ok b w'.second)
  | fault {w' : World} {halt : Halt} : w.Advances w' → w'.Coupled T →
      Outcome.Alike T w Q (.fault halt w'.first) (.fault halt w'.second)

/-- What starts in later states ends in states that are later still. -/
theorem Outcome.Alike.of_advances {α β : Type} {T : Tables} {w w' : World}
    {Q : World → α → β → Prop} {o : Outcome Halt State α} {o' : Outcome Halt State β}
    (hw : w.Advances w') (h : Outcome.Alike T w' Q o o') : Outcome.Alike T w Q o o' := by
  cases h with
  | ok hlater hcoupled hend => exact .ok (hw.trans hlater) hcoupled hend
  | fault hlater hcoupled => exact .fault (hw.trans hlater) hcoupled

/-- The scopes around the places of both runs. -/
def World.At (w : World) (P : Layers) : Prop := w.Chains P w.first.current w.second.current

theorem World.At.later {w w' : World} {P : Layers} (h : w.At P) (hw : w.Advances w') : w'.At P := by
  unfold World.At
  rw [hw.first_current, hw.second_current]
  exact World.Chains.mono h hw.toPrecedes

namespace Eval

variable {α β γ δ : Type} {side : Side} {T : Tables} {w w' : World}
variable {m : Eval α} {m' : Eval β} {f : α → Eval γ} {f' : β → Eval δ} {a : α} {b : β}
variable {Q Q' : World → α → β → Prop} {R : World → γ → δ → Prop}

/-- From the states of two runs, two computations end alike, unless one runs out of fuel. -/
def EndAlike (side : Side) (T : Tables) (w : World) (m : Eval α) (m' : Eval β)
    (Q : World → α → β → Prop) : Prop :=
  side.Spent (m w.first) (m' w.second) ∨ Outcome.Alike T w Q (m w.first) (m' w.second)

namespace EndAlike

theorem of_ok (w' : World) (h : m w.first = .ok a w'.first) (h' : m' w.second = .ok b w'.second)
    (hw : w.Advances w') (hcoupled : w'.Coupled T) (hQ : Q w' a b) : EndAlike side T w m m' Q := by
  refine .inr ?_
  rw [h, h']
  exact .ok hw hcoupled hQ

theorem pure (hcoupled : w.Coupled T) (hQ : Q w a b) :
    EndAlike side T w (Pure.pure a) (Pure.pure b) Q :=
  .of_ok w rfl rfl (.refl w) hcoupled hQ

theorem fail {fault : RuntimeFault} {line : Nat} (hcoupled : w.Coupled T) :
    EndAlike side T w (Eval.fail fault line : Eval α) (Eval.fail fault line : Eval β) Q :=
  .inr (.fault (.refl w) hcoupled)

theorem firstSpent (h : side = .first) : EndAlike side T w (Run.outOfFuel : Eval α) m' Q := by
  subst h
  exact .inl rfl

theorem secondSpent (h : side = .second) : EndAlike side T w m (Run.outOfFuel : Eval β) Q := by
  subst h
  exact .inl rfl

theorem bind (h : EndAlike side T w m m' Q)
    (hf : ∀ a b w', w.Advances w' → w'.Coupled T → Q w' a b →
      EndAlike side T w' (f a) (f' b) R) : EndAlike side T w (m >>= f) (m' >>= f') R := by
  unfold EndAlike at h ⊢
  rw [Run.bind_apply, Run.bind_apply]
  generalize m w.first = o at h
  generalize m' w.second = o' at h
  rcases h with hspent | halike
  · exact .inl (hspent.imp (fun h => by rw [h]) fun h => by rw [h])
  · cases halike with
    | ok hw hcoupled hQ => exact (hf _ _ _ hw hcoupled hQ).imp id (.of_advances hw)
    | fault hw hcoupled => exact .inr (.fault hw hcoupled)

/-- What only looks at the states comes before the rest. -/
theorem bind_of_same (h : m w.first = .ok a w.first) (h' : m' w.second = .ok b w.second)
    (hf : EndAlike side T w (f a) (f' b) R) : EndAlike side T w (m >>= f) (m' >>= f') R := by
  unfold EndAlike at *
  rwa [Run.bind_of_ok h, Run.bind_of_ok h']

theorem map {g : α → γ} {g' : β → δ} (h : EndAlike side T w m m' Q)
    (hg : ∀ a b w', Q w' a b → R w' (g a) (g' b)) : EndAlike side T w (g <$> m) (g' <$> m') R := by
  rw [map_eq_pure_bind, map_eq_pure_bind]
  exact h.bind fun a b w' _ hcoupled hQ => .pure hcoupled (hg a b w' hQ)

/-- One run may execute its part in another scope. -/
theorem withinFirst {e : EnvId} (h : EndAlike side T (w.inScopes e w.second.current) m m' Q)
    (hQ : ∀ w' a b, Q w' a b → Q' (w'.inScopes w.first.current w'.second.current) a b) :
    EndAlike side T w (Eval.within e m) m' Q' := by
  unfold EndAlike Eval.within
  change side.Spent (m { w.first with current := e }) (m' w.second) ∨
    Outcome.Alike T _ Q (m { w.first with current := e }) (m' w.second) at h
  generalize m { w.first with current := e } = o at h ⊢
  generalize m' w.second = o' at h ⊢
  refine h.imp (fun hspent => hspent.imp (fun h => by rw [h]) id) fun halike => ?_
  have hback {w' : World} (hw : (w.inScopes e w.second.current).Advances w') :
      w.Advances (w'.inScopes w.first.current w'.second.current) :=
    ⟨(World.precedes_inScopes.trans hw.toPrecedes).trans World.precedes_inScopes, rfl,
      hw.second_current⟩
  cases halike with
  | @ok w' a b hw hcoupled hend =>
      exact @Outcome.Alike.ok _ _ T w Q' (w'.inScopes w.first.current w'.second.current) a b
        (hback hw) hcoupled.inScopes (hQ w' a b hend)
  | @fault w' halt hw hcoupled =>
      exact @Outcome.Alike.fault _ _ T w Q' (w'.inScopes w.first.current w'.second.current) halt
        (hback hw) hcoupled.inScopes

theorem withinSecond {e' : EnvId} (h : EndAlike side T (w.inScopes w.first.current e') m m' Q)
    (hQ : ∀ w' a b, Q w' a b → Q' (w'.inScopes w'.first.current w.second.current) a b) :
    EndAlike side T w m (Eval.within e' m') Q' := by
  unfold EndAlike Eval.within
  change side.Spent (m w.first) (m' { w.second with current := e' }) ∨
    Outcome.Alike T _ Q (m w.first) (m' { w.second with current := e' }) at h
  generalize m w.first = o at h ⊢
  generalize m' { w.second with current := e' } = o' at h ⊢
  refine h.imp (fun hspent => hspent.imp id fun h => by rw [h]) fun halike => ?_
  have hback {w' : World} (hw : (w.inScopes w.first.current e').Advances w') :
      w.Advances (w'.inScopes w'.first.current w.second.current) :=
    ⟨(World.precedes_inScopes.trans hw.toPrecedes).trans World.precedes_inScopes,
      hw.first_current, rfl⟩
  cases halike with
  | @ok w' a b hw hcoupled hend =>
      exact @Outcome.Alike.ok _ _ T w Q' (w'.inScopes w'.first.current w.second.current) a b
        (hback hw) hcoupled.inScopes (hQ w' a b hend)
  | @fault w' halt hw hcoupled =>
      exact @Outcome.Alike.fault _ _ T w Q' (w'.inScopes w'.first.current w.second.current) halt
        (hback hw) hcoupled.inScopes

/-- What ends alike in other scopes does so when it is executed there. -/
theorem within {e e' : EnvId} (h : EndAlike side T (w.inScopes e e') m m' Q)
    (hQ : ∀ w' a b, Q w' a b → Q' (w'.inScopes w.first.current w.second.current) a b) :
    EndAlike side T w (Eval.within e m) (Eval.within e' m') Q' := by
  have hsecond : EndAlike side T (w.inScopes e w.second.current) m (Eval.within e' m')
      fun w' a b => Q' (w'.inScopes w.first.current w'.second.current) a b :=
    withinSecond (w := w.inScopes e w.second.current) h hQ
  exact withinFirst hsecond fun _ _ _ => id

end EndAlike

section Steps

variable {P : Layers} {e e' : EnvId} {x : String} {v v' : Value} {c c' : Class} {o : ObjectId}
variable {text : String}

theorem endAlike_newEnv (hcoupled : w.Coupled T) (hchains : w.Chains P e e') :
    EndAlike side T w (newEnv e) (newEnv e') fun w' scope scope' =>
      w'.Chains (.both :: P) scope scope' :=
  .of_ok (w.addBoth e e') rfl rfl World.advances_addBoth hcoupled.addBoth hchains.addBoth

theorem endAlike_defineIn (hcoupled : w.Coupled T) (hpairs : w.pairs e e')
    (hv : Value.Alike T w v v') :
    EndAlike side T w (onStore fun store => store.define e x v)
      (onStore fun store => store.define e' x v') fun _ _ _ => True :=
  .of_ok (w.withStores (w.first.store.define e x v) (w.second.store.define e' x v')) rfl rfl
    (World.advances_withStores .define .define)
    ⟨hcoupled.even.withStores .define .define, hcoupled.matched.define hpairs hv⟩ trivial

theorem endAlike_define (hcoupled : w.Coupled T) (hat : w.At P) (hmeet : P.Meet)
    (hv : Value.Alike T w v v') : EndAlike side T w (define x v) (define x v') fun _ _ _ => True :=
  endAlike_defineIn hcoupled (World.Chains.pairs_of_meet hat hmeet hcoupled.matched.globals) hv

/-- Parameters are bound one after the other. -/
theorem endAlike_defineAll {names : List String} {values values' : List Value}
    (hcoupled : w.Coupled T) (hpairs : w.pairs e e')
    (h : List.Forall₂ (Value.Alike T w) values values') :
    EndAlike side T w (onStore fun store => store.defineAll e names values)
      (onStore fun store => store.defineAll e' names values') fun _ _ _ => True := by
  induction names generalizing w values values' with
  | nil =>
      exact .of_ok w (a := ()) (b := ()) rfl rfl (.refl w) hcoupled trivial
  | cons name names ih =>
      cases h with
      | nil => exact .of_ok w (a := ()) (b := ()) rfl rfl (.refl w) hcoupled trivial
      | @cons v v' _ _ hv hrest =>
          let w' := w.withStores (w.first.store.define e name v) (w.second.store.define e' name v')
          have hw : w.Advances w' := World.advances_withStores .define .define
          have hcoupled' : w'.Coupled T :=
            ⟨hcoupled.even.withStores .define .define, hcoupled.matched.define hpairs hv⟩
          have hrest' := ih hcoupled' (hw.pairs hpairs)
            (hrest.imp fun _ _ hu => Value.Alike.mono hu hw.toPrecedes)
          exact hrest'.imp id (.of_advances hw)

theorem endAlike_newObject (hcoupled : w.Coupled T) (hc : Class.Alike T w c c') :
    EndAlike side T w (newObject c) (newObject c') fun w' o o' =>
      Value.Alike T w' (.object o) (.object o') := by
  have hw : w.Advances (w.withStores w.first.store.addObject w.second.store.addObject) :=
    World.advances_withStores .addObject .addObject
  refine .of_ok _ rfl rfl hw
    ⟨hcoupled.even.withStores .addObject .addObject, hcoupled.matched.addObject⟩ ?_
  rw [hcoupled.matched.nextObject_eq]
  exact .object (hc.mono hw.toPrecedes)

theorem endAlike_setField (hcoupled : w.Coupled T) (hv : Value.Alike T w v v') :
    EndAlike side T w (onStore fun store => store.setField o x v)
      (onStore fun store => store.setField o x v') fun _ _ _ => True :=
  .of_ok (w.withStores (w.first.store.setField o x v) (w.second.store.setField o x v'))
    rfl rfl (World.advances_withStores .setField .setField)
    ⟨hcoupled.even.withStores .setField .setField, hcoupled.matched.setField hv⟩ trivial

/-- A step that changes no store, taken by both runs. -/
theorem endAlike_of_same {t t' : State} (hcoupled : w.Coupled T) (h : m w.first = .ok a t)
    (h' : m' w.second = .ok b t') (ht : w.first.HoldsAs t) (ht' : w.second.HoldsAs t')
    (hcurrent : t.current = w.first.current) (hcurrent' : t'.current = w.second.current)
    (hsink : t'.sink = t.sink) (hcalls : t'.nativeCalls = t.nativeCalls)
    (hid : t'.nextIdentity = t.nextIdentity) (hQ : Q ⟨t, t', w.pairs⟩ a b) :
    EndAlike side T w m m' Q :=
  .of_ok ⟨t, t', w.pairs⟩ h h'
    (.of_extends ht.globals_eq ht'.globals_eq ht.extends ht'.extends hcurrent hcurrent')
    (hcoupled.of_same ht ht' hsink hcalls hid) hQ

theorem endAlike_freshIdentity (hcoupled : w.Coupled T) :
    EndAlike side T w freshIdentity freshIdentity fun _ id id' => id' = id := by
  have hid := hcoupled.even.nextIdentity_eq
  exact endAlike_of_same hcoupled rfl rfl ⟨rfl, rfl, rfl, rfl⟩ ⟨rfl, rfl, rfl, rfl⟩ rfl rfl
    hcoupled.even.sink_eq hcoupled.even.nativeCalls_eq (congrArg (· + 1) hid) hid

theorem endAlike_emit (hcoupled : w.Coupled T) :
    EndAlike side T w (emit text) (emit text) fun _ _ _ => True := by
  have hcoupled' (sink : Sink) :
      World.Coupled T ⟨{ w.first with sink }, { w.second with sink }, w.pairs⟩ :=
    hcoupled.of_same ⟨rfl, rfl, rfl, rfl⟩ ⟨rfl, rfl, rfl, rfl⟩ rfl hcoupled.even.nativeCalls_eq
      hcoupled.even.nextIdentity_eq
  have hw (sink : Sink) : w.Advances ⟨{ w.first with sink }, { w.second with sink }, w.pairs⟩ :=
    .of_extends rfl rfl (.refl _) (.refl _) rfl rfl
  refine .inr ?_
  unfold emit
  rw [hcoupled.even.sink_eq]
  cases w.first.sink.write (text ++ "\n") with
  | mk refusal sink =>
      cases refusal with
      | none => exact .ok (hw sink) (hcoupled' sink) trivial
      | some reason => exact .fault (hw sink) (hcoupled' sink)

theorem endAlike_checkArity {expected expected' got got' line : Nat} (hcoupled : w.Coupled T)
    (hexpected : expected' = expected) (hgot : got' = got) :
    EndAlike side T w (checkArity expected got line) (checkArity expected' got' line)
      fun _ _ _ => True := by
  subst hexpected hgot
  unfold checkArity
  by_cases h : got' = expected'
  · rw [if_pos h]
    exact .pure hcoupled trivial
  · rw [if_neg h]
    exact .fail hcoupled

/-- The clock does not look at what it is called with. -/
theorem endAlike_askHost {f : Native} {arguments arguments' : List Value} {line : Nat}
    (hcoupled : w.Coupled T) :
    EndAlike side T w (askHost f arguments line) (askHost f arguments' line) (Value.Alike T) := by
  obtain ⟨readings, hhost⟩ := hcoupled.even.first_grounded.clocked
  have hhost' := hcoupled.even.host_eq.trans hhost
  have hcalls := hcoupled.even.nativeCalls_eq
  unfold askHost
  refine .bind_of_same (Run.get_apply _) (Run.get_apply _) ?_
  rw [hhost, hhost', hcalls]
  have hasked : EndAlike side T w
      (Run.modify fun s => { s with nativeCalls := s.nativeCalls + 1 } : Eval Unit)
      (Run.modify fun s => { s with nativeCalls := s.nativeCalls + 1 } : Eval Unit)
      fun _ _ _ => True :=
    endAlike_of_same hcoupled rfl rfl ⟨rfl, rfl, rfl, rfl⟩ ⟨rfl, rfl, rfl, rfl⟩ rfl rfl
      hcoupled.even.sink_eq (congrArg (· + 1) hcalls) hcoupled.even.nextIdentity_eq trivial
  refine hasked.bind ?_
  intro _ _ w' _ hcoupled' _
  exact .pure hcoupled' .number

theorem endAlike_ofOperation {result result' : Except RuntimeFault Value} {line : Nat}
    (hcoupled : w.Coupled T) (hresult : result' = result)
    (halike : ∀ v, result = .ok v → Value.Alike T w v v) :
    EndAlike side T w (ofOperation result line) (ofOperation result' line) (Value.Alike T) := by
  subst hresult
  cases result' with
  | ok v => exact .pure hcoupled (halike v rfl)
  | error fault => exact .fail hcoupled

end Steps

section Names

variable {P : Layers} {e e' : EnvId} {d d' : Nat} {name : Name} {id id' : NodeId}

theorem endAlike_readAt (hcoupled : w.Coupled T) (hchains : w.Chains P e e')
    (ha : P.Aligned d d') :
    EndAlike side T w (readAt e d name) (readAt e' d' name) (Value.Alike T) := by
  obtain ⟨target, target', htarget, htarget', hpairs⟩ :=
    hchains.exists_ancestor? ha hcoupled.matched.globals
  have hbinding := hcoupled.matched.binding hpairs name.text
  refine .bind_of_same (Run.get_apply _) (Run.get_apply _) ?_
  unfold Store.lookupAt
  rw [htarget, htarget']
  cases hv : w.first.store.binding? target name.text with
  | none =>
      simp only [hv, hbinding.eq_none hv]
      exact .fail hcoupled
  | some v =>
      obtain ⟨v', hv', halike⟩ := hbinding.exists_of_eq_some hv
      simp only [hv, hv']
      exact .pure hcoupled halike

theorem endAlike_read (hcoupled : w.Coupled T) (hat : w.At P)
    (href : Option.Rel P.Aligned T.first[id]? T.second[id']?) :
    EndAlike side T w (read id name) (read id' name) (Value.Alike T) := by
  refine .bind_of_same (Run.get_apply _) (Run.get_apply _) ?_
  rw [hcoupled.even.first_distances, hcoupled.even.second_distances]
  cases hd : T.first[id]? with
  | some d =>
      obtain ⟨d', hd', ha⟩ := href.exists_of_eq_some hd
      simp only [hd']
      exact endAlike_readAt hcoupled hat ha
  | none =>
      have hglobal := hcoupled.matched.binding hcoupled.matched.globals name.text
      simp only [href.eq_none hd]
      rw [Store.lookup?_of_outermost hcoupled.even.first_grounded.outermost,
        Store.lookup?_of_outermost hcoupled.even.second_grounded.outermost]
      cases hv : w.first.store.binding? w.first.globals name.text with
      | none =>
          rw [hglobal.eq_none hv]
          exact .fail hcoupled
      | some v =>
          obtain ⟨v', hv', halike⟩ := hglobal.exists_of_eq_some hv
          rw [hv']
          exact .pure hcoupled halike

/-- An assignment is meant for scopes that correspond. -/
theorem endAlike_assignmentTarget (hcoupled : w.Coupled T) (hat : w.At P)
    (href : Option.Rel P.Aligned T.first[id]? T.second[id']?) :
    EndAlike side T w (assignmentTarget ⟨id, name⟩) (assignmentTarget ⟨id', name⟩)
      World.pairs := by
  refine .bind_of_same (Run.get_apply _) (Run.get_apply _) ?_
  rw [hcoupled.even.first_distances, hcoupled.even.second_distances]
  cases hd : T.first[id]? with
  | some d =>
      obtain ⟨d', hd', ha⟩ := href.exists_of_eq_some hd
      obtain ⟨target, target', htarget, htarget', hpairs⟩ :=
        World.Chains.exists_ancestor? hat ha hcoupled.matched.globals
      simp only [hd', htarget, htarget']
      exact .pure hcoupled hpairs
  | none =>
      have hglobal := hcoupled.matched.binding hcoupled.matched.globals name.text
      simp only [href.eq_none hd]
      rw [Store.binder?_of_outermost hcoupled.even.first_grounded.outermost,
        Store.binder?_of_outermost hcoupled.even.second_grounded.outermost]
      cases hv : w.first.store.binding? w.first.globals name.text with
      | none =>
          rw [hglobal.eq_none hv]
          exact .fail hcoupled
      | some v =>
          obtain ⟨v', hv', _⟩ := hglobal.exists_of_eq_some hv
          rw [hv']
          exact .pure hcoupled hcoupled.matched.globals

theorem endAlike_assign {v v' : Value} (hcoupled : w.Coupled T) (hat : w.At P)
    (href : Option.Rel P.Aligned T.first[id]? T.second[id']?) (hv : Value.Alike T w v v') :
    EndAlike side T w (assign ⟨id, name⟩ v) (assign ⟨id', name⟩ v') fun _ _ _ => True := by
  refine (endAlike_assignmentTarget hcoupled hat href).bind ?_
  intro target target' w' hw hcoupled' hpairs
  exact endAlike_defineIn hcoupled' hpairs (hv.mono hw.toPrecedes)

end Names

section Methods

variable {P : Layers} {method method' : Function} {o o' : Object} {name : Name}

/-- Methods that are alike become functions that are when they are bound to objects. -/
theorem endAlike_bindMethod (hcoupled : w.Coupled T)
    (hmethod : Function.Alike T w [.both] method method')
    (ho : Value.Alike T w (.object o) (.object o')) :
    EndAlike side T w (bindMethod method o) (bindMethod method' o') fun w' f f' =>
      Function.Alike T w' [] f f' := by
  cases hmethod with
  | mk hchains hmeet hd =>
      refine (endAlike_newEnv hcoupled hchains).bind ?_
      intro scope scope' w₁ hw₁ hcoupled₁ hscope
      refine (endAlike_defineIn hcoupled₁ hscope.1 (ho.mono hw₁.toPrecedes)).bind ?_
      intro _ _ w₂ hw₂ hcoupled₂ _
      refine (endAlike_freshIdentity hcoupled₂).bind ?_
      rintro _ _ w₃ hw₃ hcoupled₃ rfl
      exact .pure hcoupled₃ (.mk (hscope.mono (hw₂.trans hw₃).toPrecedes) trivial hd)

theorem endAlike_property (hcoupled : w.Coupled T)
    (ho : Value.Alike T w (.object o) (.object o')) :
    EndAlike side T w (property o name) (property o' name) (Value.Alike T) := by
  refine .bind_of_same (Run.get_apply _) (Run.get_apply _) ?_
  cases ho with
  | @object id c c' hc =>
      have hfield := hcoupled.matched.field id name.text
      cases hv : w.first.store.field? id name.text with
      | some v =>
          obtain ⟨v', hv', halike⟩ := hfield.exists_of_eq_some hv
          simp only [hv']
          exact .pure hcoupled halike
      | none =>
          simp only [hfield.eq_none hv]
          cases hmethod : c.findMethod? name.text with
          | none =>
              simp only [(hc.methods name.text).eq_none hmethod]
              exact .fail hcoupled
          | some method =>
              obtain ⟨method', hmethod', halike⟩ :=
                (hc.methods name.text).exists_of_eq_some hmethod
              simp only [hmethod']
              refine (endAlike_bindMethod hcoupled halike (.object hc)).bind ?_
              intro f f' w' _ hcoupled' hf
              exact .pure hcoupled' (.function hf)

/-- A method of the superclass: the scopes that bind `super` correspond, and so do the ones just
inside them, which bind `this`. -/
theorem endAlike_inheritedMethod {id : NodeId} {node : NodeId → NodeId} {line : Nat}
    (hcoupled : w.Coupled T) (hat : w.At P) {o : Occurrence} (hrole : o.role = .inherited)
    (hid : o.id = id) (href : T.Agree node P o) :
    EndAlike side T w (inheritedMethod id line name) (inheritedMethod (node id) line name)
      (Value.Alike T) := by
  subst hid
  refine .bind_of_same (Run.get_apply _) (Run.get_apply _) ?_
  rw [hcoupled.even.first_distances, hcoupled.even.second_distances]
  cases hd : T.first[o.id]? with
  | none =>
      simp only [Option.Rel.eq_none href hd]
      exact .fail hcoupled
  | some d =>
      obtain ⟨d', hd', ha, hinner⟩ := Option.Rel.exists_of_eq_some href hd
      obtain ⟨inner, inner', rfl, rfl, hreceiver⟩ := hinner hrole
      simp only [hd']
      refine (endAlike_readAt hcoupled hat ha).bind ?_
      intro v v' w₁ hw₁ hcoupled₁ hv
      cases hv with
      | @cls superclass superclass' hc =>
          simp only
          refine (endAlike_readAt hcoupled₁ (hat.mono hw₁.toPrecedes) hreceiver).bind ?_
          intro u u' w₂ hw₂ hcoupled₂ hu
          cases hu with
          | @object o c c' ho =>
              have hmethods := (hc.mono hw₂.toPrecedes).methods name.text
              cases hmethod : superclass.findMethod? name.text with
              | none =>
                  simp only [hmethods.eq_none hmethod]
                  exact .fail hcoupled₂
              | some method =>
                  obtain ⟨method', hmethod', halike⟩ := hmethods.exists_of_eq_some hmethod
                  simp only [hmethod']
                  refine (endAlike_bindMethod hcoupled₂ halike (.object ho)).bind ?_
                  intro f f' w₃ _ hcoupled₃ hf
                  exact .pure hcoupled₃ (.function hf)
          | _ => exact .fail hcoupled₂
      | _ => exact .fail hcoupled₁

end Methods

section Classes

variable {P : Layers} {name : Name} {ds : List FunctionDecl} {node : NodeId → NodeId}

theorem endAlike_superclass {id id' : NodeId} (hcoupled : w.Coupled T) (hat : w.At P)
    (href : Option.Rel P.Aligned T.first[id]? T.second[id']?) :
    EndAlike side T w (superclass ⟨id, name⟩) (superclass ⟨id', name⟩) (Class.Alike T) := by
  refine (endAlike_read hcoupled hat href).bind ?_
  intro v v' w' _ hcoupled' hv
  cases hv with
  | cls hc => exact .pure hcoupled' hc
  | _ => exact .fail hcoupled'

/-- The scopes in which methods are declared, as far as they depend on a superclass. -/
def methodLayers (parent : Option Class) (P : Layers) : Layers :=
  match parent with
  | none => P
  | some _ => .both :: P

theorem endAlike_methodScope {parent parent' : Option Class} (hcoupled : w.Coupled T)
    (hat : w.At P) (hparent : Option.Rel (Class.Alike T w) parent parent') :
    EndAlike side T w (methodScope parent) (methodScope parent') fun w' closure closure' =>
      w'.Chains (methodLayers parent P) closure closure' := by
  refine .bind_of_same (Run.gets_apply _ _) (Run.gets_apply _ _) ?_
  cases hparent with
  | none => exact .pure hcoupled hat
  | some hc =>
      refine (endAlike_newEnv hcoupled hat).bind ?_
      intro scope scope' w₁ hw₁ hcoupled₁ hscope
      refine (endAlike_defineIn hcoupled₁ hscope.1 (.cls (hc.mono hw₁.toPrecedes))).bind ?_
      intro _ _ w₂ hw₂ hcoupled₂ _
      exact .pure hcoupled₂ (hscope.mono hw₂.toPrecedes)

theorem endAlike_makeMethods {closure closure' : EnvId} (hcoupled : w.Coupled T)
    (hclosure : w.Chains P closure closure') (hmeet : P.Meet)
    (hds : FunctionDecl.AlignedAll T node (.both :: P) ds) :
    EndAlike side T w (makeMethods closure ds)
      (makeMethods closure' (FunctionDecl.relabelAll (.renumber node) ds))
      fun w' methods methods' => Methods.Alike T w' methods.get? methods'.get? := by
  -- the methods made so far are alike, whatever they are
  have hgo {w : World} (made made' : Bindings Function) (hcoupled : w.Coupled T)
      (hclosure : w.Chains P closure closure') (hmade : Methods.Alike T w made.get? made'.get?) :
      EndAlike side T w (makeMethods.go closure made ds)
        (makeMethods.go closure' made' (FunctionDecl.relabelAll (.renumber node) ds))
        fun w' methods methods' => Methods.Alike T w' methods.get? methods'.get? := by
    induction ds generalizing w made made' with
    | nil => exact .pure hcoupled hmade
    | cons d ds ih =>
        obtain ⟨hd, hds⟩ := hds
        refine (endAlike_freshIdentity hcoupled).bind ?_
        rintro _ id w' hw hcoupled' rfl
        refine ih hds _ _ hcoupled' (hclosure.mono hw.toPrecedes) fun x => ?_
        rw [FunctionDecl.name_relabel, Name.text_relabel, Bindings.get?_insert,
          Bindings.get?_insert]
        by_cases hx : d.name.text = x
        · rw [if_pos hx, if_pos hx]
          exact .some (.mk (hclosure.mono hw.toPrecedes) hmeet hd)
        · rw [if_neg hx, if_neg hx]
          exact (hmade x).imp fun _ _ hf => hf.mono hw.toPrecedes
  exact hgo .empty .empty hcoupled hclosure fun _ => .none

/-- Declaring a class whose superclass is known. -/
theorem endAlike_declareMethods {parent parent' : Option Class} (hcoupled : w.Coupled T)
    (hat : w.At P) (hmeet : P.Meet) (hparent : Option.Rel (Class.Alike T w) parent parent')
    (hds : FunctionDecl.AlignedAll T node (.both :: methodLayers parent P) ds) :
    EndAlike side T w
      (do
        define name.text .nil
        let closure ← methodScope parent
        let methods ← makeMethods closure ds
        let id ← freshIdentity
        define name.text (.cls (.extending ⟨id, name.text, methods⟩ parent)))
      (do
        define name.text .nil
        let closure ← methodScope parent'
        let methods ← makeMethods closure (FunctionDecl.relabelAll (.renumber node) ds)
        let id ← freshIdentity
        define name.text (.cls (.extending ⟨id, name.text, methods⟩ parent')))
      fun _ _ _ => True := by
  refine (endAlike_define hcoupled hat hmeet .nil).bind ?_
  intro _ _ w₁ hw₁ hcoupled₁ _
  have hparent₁ := hparent.imp fun _ _ (hc : Class.Alike T w _ _) => hc.mono hw₁.toPrecedes
  refine (endAlike_methodScope hcoupled₁ (hat.later hw₁) hparent₁).bind ?_
  intro closure closure' w₂ hw₂ hcoupled₂ hclosure
  have hclosureMeets : (methodLayers parent P).Meet := by
    cases parent with
    | none => exact hmeet
    | some _ => trivial
  refine (endAlike_makeMethods hcoupled₂ hclosure hclosureMeets hds).bind ?_
  intro methods methods' w₃ hw₃ hcoupled₃ hmethods
  refine (endAlike_freshIdentity hcoupled₃).bind ?_
  rintro _ id w₄ hw₄ hcoupled₄ rfl
  have hlater := (hw₂.trans hw₃).trans hw₄
  have hparent₄ := hparent₁.imp fun _ _ (hc : Class.Alike T w₁ _ _) => hc.mono hlater.toPrecedes
  exact endAlike_define hcoupled₄ (hat.later (hw₁.trans hlater)) hmeet
    (.cls (.extending (hmethods.mono hw₄.toPrecedes) hparent₄))

theorem endAlike_plainClass (hcoupled : w.Coupled T) (hat : w.At P) (hmeet : P.Meet)
    (hds : FunctionDecl.AlignedAll T node (.both :: P) ds) :
    EndAlike side T w (declareClass name none ds)
      (declareClass name none (FunctionDecl.relabelAll (.renumber node) ds)) fun _ _ _ => True :=
  endAlike_declareMethods hcoupled hat hmeet .none hds

theorem endAlike_subclass {ref : Reference} (hcoupled : w.Coupled T) (hat : w.At P)
    (hmeet : P.Meet) (href : Option.Rel P.Aligned T.first[ref.id]? T.second[node ref.id]?)
    (hds : FunctionDecl.AlignedAll T node (.both :: .both :: P) ds) :
    EndAlike side T w (declareClass name (some ref) ds)
      (declareClass name (some (ref.relabel (.renumber node)))
        (FunctionDecl.relabelAll (.renumber node) ds)) fun _ _ _ => True := by
  have hparent : EndAlike side T w (some <$> superclass ref)
      (some <$> superclass (ref.relabel (.renumber node))) fun w' parent parent' =>
        ∃ c c', parent = some c ∧ parent' = some c' ∧ Class.Alike T w' c c' :=
    (endAlike_superclass hcoupled hat href).map fun c c' _ hc => ⟨c, c', rfl, rfl, hc⟩
  refine hparent.bind ?_
  rintro _ _ w' hw hcoupled' ⟨c, c', rfl, rfl, hc⟩
  exact endAlike_declareMethods hcoupled' (hat.later hw) hmeet (.some hc) hds

end Classes

end Eval

end ScopedScript
