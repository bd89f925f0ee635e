import ScopedScript.Proofs.Loop.Coupling

/-!
# Steps of coupled runs

What both runs do to their stores leaves them coupled: names that are bound in scopes which
correspond, scopes that both runs add, and also a scope that one of them adds on its own.
-/

namespace ScopedScript

/-- A state with the same store, in which the same references are known and natives answer alike. -/
structure State.HoldsAs (s t : State) : Prop where
  store_eq : t.store = s.store
  globals_eq : t.globals = s.globals
  distances_eq : t.distances = s.distances
  host_eq : t.host = s.host

theorem State.HoldsAs.extends {s t : State} (h : s.HoldsAs t) : s.store.Extends t.store := by
  rw [h.store_eq]
  exact .refl _

/-- Scopes and values may be added to the stores. -/
theorem State.Even.withStores {T : Tables} {s s' : State} {st st' : Store} (h : s.Even T s')
    (hst : s.store.Extends st) (hst' : s'.store.Extends st') :
    State.Even T { s with store := st } { s' with store := st' } where
  first_grounded := h.first_grounded.later rfl hst rfl
  second_grounded := h.second_grounded.later rfl hst' rfl
  first_distances := h.first_distances
  second_distances := h.second_distances
  sink_eq := h.sink_eq
  host_eq := h.host_eq
  nativeCalls_eq := h.nativeCalls_eq
  nextIdentity_eq := h.nextIdentity_eq

namespace World

variable {T : Tables} {w w' : World} {P : Layers} {e e' outer outer' : EnvId} {o : ObjectId}
variable {x : String} {v v' : Value} {d d' : Nat}

/-- The states with other stores. -/
def withStores (w : World) (st st' : Store) : World :=
  { w with first := { w.first with store := st }, second := { w.second with store := st' } }

/-- The states after a scope has been added in both. -/
def addBoth (w : World) (outer outer' : EnvId) : World where
  first := { w.first with store := w.first.store.addEnv (some outer) }
  second := { w.second with store := w.second.store.addEnv (some outer') }
  pairs e e' := w.pairs e e' ∨ e = w.first.store.nextEnv ∧ e' = w.second.store.nextEnv

/-- The states after a scope has been added in the first one. -/
def addFirst (w : World) (outer : EnvId) : World :=
  w.withStores (w.first.store.addEnv (some outer)) w.second.store

/-- The states after a scope has been added in the second one. -/
def addSecond (w : World) (outer' : EnvId) : World :=
  w.withStores w.first.store (w.second.store.addEnv (some outer'))

/-- The states in other scopes. -/
def inScopes (w : World) (e e' : EnvId) : World :=
  { w with first := { w.first with current := e }, second := { w.second with current := e' } }

theorem advances_withStores {st st' : Store} (h : w.first.store.Extends st)
    (h' : w.second.store.Extends st') : w.Advances (w.withStores st st') :=
  .of_extends rfl rfl h h' rfl rfl

/-- The scopes that are added are new, so those that there were correspond as before. -/
theorem advances_addBoth : w.Advances (w.addBoth outer outer') where
  first_globals := rfl
  second_globals := rfl
  first_extends := .addEnv
  second_extends := .addEnv
  pairs := .inl
  pairs_of_first he h := h.resolve_right fun hnew => Nat.ne_of_lt he hnew.1
  pairs_of_second he h := h.resolve_right fun hnew => Nat.ne_of_lt he hnew.2
  first_current := rfl
  second_current := rfl

theorem precedes_inScopes : w.Precedes (w.inScopes e e') :=
  ⟨rfl, rfl, .refl _, .refl _, id, fun _ => id, fun _ => id⟩

/-- A scope that both runs have is found by both from scopes whose chains correspond. -/
theorem Chains.exists_ancestor? (h : w.Chains P e e') (ha : P.Aligned d d')
    (hglobals : w.pairs w.first.globals w.second.globals) :
    ∃ f f', w.first.store.ancestor? e d = some f ∧ w.second.store.ancestor? e' d' = some f' ∧
      w.pairs f f' := by
  induction ha generalizing e e' with
  | @here P hmeet =>
      refine ⟨e, e', rfl, rfl, ?_⟩
      match P, hmeet with
      | [], _ =>
          rw [h.1, h.2]
          exact hglobals
      | .both :: _, _ => exact h.1
  | both _ ih =>
      obtain ⟨_, outer, outer', houter, houter', hrest⟩ := h
      obtain ⟨f, f', hf, hf', hpairs⟩ := ih hrest
      refine ⟨f, f', ?_, ?_, hpairs⟩
      · unfold Store.ancestor?
        rw [houter]
        exact hf
      · unfold Store.ancestor?
        rw [houter']
        exact hf'
  | first _ ih =>
      obtain ⟨_, outer, houter, hrest⟩ := h
      obtain ⟨f, f', hf, hf', hpairs⟩ := ih hrest
      refine ⟨f, f', ?_, hf', hpairs⟩
      unfold Store.ancestor?
      rw [houter]
      exact hf
  | second _ ih =>
      obtain ⟨_, outer', houter', hrest⟩ := h
      obtain ⟨f, f', hf, hf', hpairs⟩ := ih hrest
      refine ⟨f, f', hf, ?_, hpairs⟩
      unfold Store.ancestor?
      rw [houter']
      exact hf'

theorem Chains.pairs_of_meet (h : w.Chains P e e') (hmeet : P.Meet)
    (hglobals : w.pairs w.first.globals w.second.globals) : w.pairs e e' := by
  obtain ⟨f, f', hf, hf', hpairs⟩ := h.exists_ancestor? (.here hmeet) hglobals
  cases hf
  cases hf'
  exact hpairs

theorem Chains.addBoth (h : w.Chains P e e') :
    (w.addBoth e e').Chains (.both :: P) w.first.store.nextEnv w.second.store.nextEnv :=
  ⟨.inr ⟨rfl, rfl⟩, e, e', Store.enclosing?_addEnv_nextEnv, Store.enclosing?_addEnv_nextEnv,
    h.mono advances_addBoth.toPrecedes⟩

theorem Chains.addFirst (h : w.Chains P e e') (hmatched : w.Matched T) :
    (w.addFirst e).Chains (.first :: P) w.first.store.nextEnv e' :=
  ⟨fun _ hf => Nat.lt_irrefl _ (hmatched.first_hasEnv hf), e, Store.enclosing?_addEnv_nextEnv,
    h.mono (advances_withStores .addEnv (.refl _)).toPrecedes⟩

theorem Chains.addSecond (h : w.Chains P e e') (hmatched : w.Matched T) :
    (w.addSecond e').Chains (.second :: P) e w.second.store.nextEnv :=
  ⟨fun _ hf => Nat.lt_irrefl _ (hmatched.second_hasEnv hf), e', Store.enclosing?_addEnv_nextEnv,
    h.mono (advances_withStores (.refl _) .addEnv).toPrecedes⟩

namespace Matched

theorem define (h : w.Matched T) (hpairs : w.pairs e e') (hv : Value.Alike T w v v') :
    (w.withStores (w.first.store.define e x v) (w.second.store.define e' x v')).Matched T := by
  have hlater := (advances_withStores (w := w) (Store.Extends.define (e := e) (x := x) (v := v))
    (Store.Extends.define (e := e') (x := x) (v := v'))).toPrecedes
  exact {
    globals := h.globals
    unique := h.unique
    first_hasEnv := fun hf => Store.hasEnv_define.mpr (h.first_hasEnv hf)
    second_hasEnv := fun hf => Store.hasEnv_define.mpr (h.second_hasEnv hf)
    binding := fun {f f'} hf y => by
      simp only [World.withStores, Store.binding?_define]
      -- The scopes are the ones in which the name is bound in both runs or in neither.
      by_cases hbound : e = f ∧ x = y
      · obtain ⟨rfl, rfl⟩ := hbound
        obtain rfl := (h.unique hpairs hf).mp rfl
        rw [if_pos ⟨rfl, rfl, h.first_hasEnv hf⟩, if_pos ⟨rfl, rfl, h.second_hasEnv hf⟩]
        exact .some (hv.mono hlater)
      · rw [if_neg fun hnow => hbound ⟨hnow.1, hnow.2.1⟩,
          if_neg fun hnow => hbound ⟨(h.unique hpairs hf).mpr hnow.1, hnow.2.1⟩]
        exact (h.binding hf y).imp fun _ _ hu => hu.mono hlater
    first_bare := fun {f y u} hu => by
      simp only [World.withStores, Store.binding?_define] at hu
      by_cases hbound : e = f ∧ x = y ∧ w.first.store.HasEnv e
      · obtain ⟨rfl, _⟩ := hbound
        exact ⟨e', hpairs⟩
      · rw [if_neg hbound] at hu
        exact h.first_bare hu
    second_bare := fun {f y u} hu => by
      simp only [World.withStores, Store.binding?_define] at hu
      by_cases hbound : e' = f ∧ x = y ∧ w.second.store.HasEnv e'
      · obtain ⟨rfl, _⟩ := hbound
        exact ⟨e, hpairs⟩
      · rw [if_neg hbound] at hu
        exact h.second_bare hu
    nextObject_eq := h.nextObject_eq
    field := fun o y => (h.field o y).imp fun _ _ hu => hu.mono hlater }

/-- Scopes that are added bind nothing, so nothing has to be known of them but which of them
correspond. -/
theorem later (h : w.Matched T) (hw : w.Precedes w')
    (hpairs : ∀ e e', w'.pairs e e' → w.pairs e e' ∨
      (e = w.first.store.nextEnv ∧ w'.first.store.HasEnv e) ∧
        e' = w.second.store.nextEnv ∧ w'.second.store.HasEnv e')
    (hbinding : ∀ e x, w'.first.store.binding? e x = w.first.store.binding? e x)
    (hbinding' : ∀ e x, w'.second.store.binding? e x = w.second.store.binding? e x)
    (hfields : w'.first.store.fields = w.first.store.fields)
    (hfields' : w'.second.store.fields = w.second.store.fields) : w'.Matched T where
  globals := by
    rw [hw.first_globals, hw.second_globals]
    exact hw.pairs h.globals
  unique {e e' f f'} he hf := by
    have hnot {e e' : EnvId} (hpairs : w.pairs e e') :
        e ≠ w.first.store.nextEnv ∧ e' ≠ w.second.store.nextEnv :=
      ⟨Nat.ne_of_lt (h.first_hasEnv hpairs), Nat.ne_of_lt (h.second_hasEnv hpairs)⟩
    rcases hpairs e e' he with he | ⟨⟨rfl, _⟩, rfl, _⟩
    · rcases hpairs f f' hf with hf | ⟨⟨rfl, _⟩, rfl, _⟩
      · exact h.unique he hf
      · exact iff_of_false (hnot he).1 (hnot he).2
    · rcases hpairs f f' hf with hf | ⟨⟨rfl, _⟩, rfl, _⟩
      · exact iff_of_false (hnot hf).1.symm (hnot hf).2.symm
      · exact iff_of_true rfl rfl
  first_hasEnv he := by
    rcases hpairs _ _ he with he | ⟨⟨_, hnew⟩, _⟩
    · exact hw.first_extends.hasEnv (h.first_hasEnv he)
    · exact hnew
  second_hasEnv he := by
    rcases hpairs _ _ he with he | ⟨_, _, hnew⟩
    · exact hw.second_extends.hasEnv (h.second_hasEnv he)
    · exact hnew
  binding he x := by
    rw [hbinding, hbinding']
    rcases hpairs _ _ he with he | ⟨⟨rfl, _⟩, rfl, _⟩
    · exact (h.binding he x).imp fun _ _ hu => hu.mono hw
    · rw [Store.binding?_nextEnv, Store.binding?_nextEnv]
      exact .none
  first_bare hu := by
    rw [hbinding] at hu
    obtain ⟨e', he⟩ := h.first_bare hu
    exact ⟨e', hw.pairs he⟩
  second_bare hu := by
    rw [hbinding'] at hu
    obtain ⟨e, he⟩ := h.second_bare hu
    exact ⟨e, hw.pairs he⟩
  nextObject_eq := by
    unfold Store.nextObject
    rw [hfields, hfields']
    exact h.nextObject_eq
  field o x := by
    unfold Store.field?
    rw [hfields, hfields']
    exact (h.field o x).imp fun _ _ hu => hu.mono hw

theorem addObject (h : w.Matched T) :
    (w.withStores w.first.store.addObject w.second.store.addObject).Matched T := by
  have hlater := (advances_withStores (w := w) Store.Extends.addObject .addObject).toPrecedes
  exact {
    globals := h.globals
    unique := h.unique
    first_hasEnv := h.first_hasEnv
    second_hasEnv := h.second_hasEnv
    binding := fun hf x => (h.binding hf x).imp fun _ _ hu => hu.mono hlater
    first_bare := h.first_bare
    second_bare := h.second_bare
    nextObject_eq := by
      simp only [World.withStores, Store.nextObject_addObject, h.nextObject_eq]
    field := fun o x => by
      simp only [World.withStores, Store.field?_addObject]
      exact (h.field o x).imp fun _ _ hu => hu.mono hlater }

theorem hasObject_iff (h : w.Matched T) : w.second.store.HasObject o ↔ w.first.store.HasObject o :=
  iff_of_eq (congrArg (o < ·) h.nextObject_eq)

theorem setField (h : w.Matched T) (hv : Value.Alike T w v v') :
    (w.withStores (w.first.store.setField o x v) (w.second.store.setField o x v')).Matched T := by
  have hlater := (advances_withStores (w := w)
    (Store.Extends.setField (o := o) (x := x) (v := v))
    (Store.Extends.setField (o := o) (x := x) (v := v'))).toPrecedes
  exact {
    globals := h.globals
    unique := h.unique
    first_hasEnv := h.first_hasEnv
    second_hasEnv := h.second_hasEnv
    binding := fun hf x => (h.binding hf x).imp fun _ _ hu => hu.mono hlater
    first_bare := h.first_bare
    second_bare := h.second_bare
    nextObject_eq := by
      simp only [World.withStores, Store.nextObject_setField, h.nextObject_eq]
    field := fun o' y => by
      simp only [World.withStores, Store.field?_setField, h.hasObject_iff]
      by_cases hset : o = o' ∧ x = y ∧ w.first.store.HasObject o
      · rw [if_pos hset, if_pos hset]
        exact .some (hv.mono hlater)
      · rw [if_neg hset, if_neg hset]
        exact (h.field o' y).imp fun _ _ hu => hu.mono hlater }

end Matched

namespace Coupled

theorem addBoth (h : w.Coupled T) : (w.addBoth outer outer').Coupled T where
  even := h.even.withStores .addEnv .addEnv
  «matched» := by
    refine h.matched.later advances_addBoth.toPrecedes (fun e e' he => ?_)
      (fun _ _ => Store.binding?_addEnv) (fun _ _ => Store.binding?_addEnv) rfl rfl
    rcases he with he | ⟨rfl, rfl⟩
    · exact .inl he
    · exact .inr ⟨⟨rfl, Store.hasEnv_nextEnv⟩, rfl, Store.hasEnv_nextEnv⟩

theorem addFirst (h : w.Coupled T) : (w.addFirst outer).Coupled T where
  even := h.even.withStores .addEnv (.refl _)
  «matched» := h.matched.later (advances_withStores .addEnv (.refl _)).toPrecedes
    (fun _ _ => .inl) (fun _ _ => Store.binding?_addEnv) (fun _ _ => rfl) rfl rfl

theorem addSecond (h : w.Coupled T) : (w.addSecond outer').Coupled T where
  even := h.even.withStores (.refl _) .addEnv
  «matched» := h.matched.later (advances_withStores (.refl _) .addEnv).toPrecedes
    (fun _ _ => .inl) (fun _ _ => rfl) (fun _ _ => Store.binding?_addEnv) rfl rfl

/-- Where the runs are, what they have printed and what they have asked does not matter to their
stores. -/
theorem of_same (h : w.Coupled T) {t t' : State} (ht : w.first.HoldsAs t)
    (ht' : w.second.HoldsAs t') (hsink : t'.sink = t.sink)
    (hcalls : t'.nativeCalls = t.nativeCalls) (hid : t'.nextIdentity = t.nextIdentity) :
    World.Coupled T ⟨t, t', w.pairs⟩ where
  even := {
    first_grounded := h.even.first_grounded.later ht.globals_eq ht.extends ht.host_eq
    second_grounded := h.even.second_grounded.later ht'.globals_eq ht'.extends ht'.host_eq
    first_distances := ht.distances_eq.trans h.even.first_distances
    second_distances := ht'.distances_eq.trans h.even.second_distances
    sink_eq := hsink
    host_eq := by rw [ht.host_eq, ht'.host_eq, h.even.host_eq]
    nativeCalls_eq := hcalls
    nextIdentity_eq := hid }
  «matched» := by
    have hw : w.Precedes ⟨t, t', w.pairs⟩ :=
      ⟨ht.globals_eq, ht'.globals_eq, ht.extends, ht'.extends, id, fun _ => id, fun _ => id⟩
    refine h.matched.later hw (fun _ _ => .inl) (fun _ _ => ?_) (fun _ _ => ?_) ?_ ?_
    · rw [ht.store_eq]
    · rw [ht'.store_eq]
    · rw [ht.store_eq]
    · rw [ht'.store_eq]

theorem inScopes (h : w.Coupled T) : (w.inScopes e e').Coupled T :=
  h.of_same ⟨rfl, rfl, rfl, rfl⟩ ⟨rfl, rfl, rfl, rfl⟩ h.even.sink_eq h.even.nativeCalls_eq
    h.even.nextIdentity_eq

end Coupled

end World

end ScopedScript
