import ScopedScript.Proofs.Renaming.TwinState

/-!
# Two runs side by side

The state of a run and that of the run of a twin, put together with what relates them. Each
operation on a store, done in both, leads to states that are related again.
-/

namespace ScopedScript

/-- The states of a run and of the run of a twin. The second state is the first one with another
store and another last value. -/
structure TwinStates (ρ : Renaming) where
  state : State
  marking : Marking
  store : Store
  lastValue : Value
  grounded : state.Grounded
  globals_unmarked : marking state.globals = false
  distances_eq : state.distances = ρ.distances
  nextEnv_eq : store.nextEnv = state.store.nextEnv
  nextObject_eq : store.nextObject = state.store.nextObject
  enclosing_eq : ∀ e, store.enclosing? e = state.store.enclosing? e
  binding : ∀ e x, Option.Rel (Value.Twin ρ state marking) (state.store.binding? e x)
    (store.binding? e (ρ.exchange (marking e) x))
  field : ∀ o x, Option.Rel (Value.Twin ρ state marking) (state.store.field? o x)
    (store.field? o x)
  render_eq : lastValue.render = state.lastValue.render

namespace TwinStates

variable {ρ : Renaming} (p : TwinStates ρ) {q r : TwinStates ρ}
variable {e : EnvId} {o : ObjectId} {x x' : String} {v v' : Value} {marks : Marks} {d : Nat}

/-- The second state. -/
def other : State := { p.state with store := p.store, lastValue := p.lastValue }

/-- Values that are twins in these states. -/
abbrev Related (v v' : Value) : Prop := Value.Twin ρ p.state p.marking v v'

/-- The marks along the chain of a scope. -/
abbrev Marked (e : EnvId) (marks : Marks) : Prop := p.state.Marked p.marking e marks

/-- Later states, with the marks that there were. -/
abbrev Advances (p q : TwinStates ρ) : Prop := p.state.Advances p.marking q.state q.marking

theorem hasEnv_iff : p.store.HasEnv e ↔ p.state.store.HasEnv e :=
  iff_of_eq (congrArg (e < ·) p.nextEnv_eq)

theorem hasObject_iff : p.store.HasObject o ↔ p.state.store.HasObject o :=
  iff_of_eq (congrArg (o < ·) p.nextObject_eq)

theorem ancestor?_eq : p.store.ancestor? e d = p.state.store.ancestor? e d := by
  induction d generalizing e with
  | zero => rfl
  | succ d ih =>
      unfold Store.ancestor?
      rw [p.enclosing_eq]
      exact Option.bind_congr fun _ _ => ih

theorem marking_ancestor (h : p.Marked e marks) {target : EnvId}
    (htarget : p.state.store.ancestor? e d = some target) : p.marking target = marks.at d :=
  h.at_ancestor p.grounded p.globals_unmarked htarget

theorem marking_of_marked (h : p.Marked e marks) : p.marking e = marks.at 0 :=
  p.marking_ancestor h rfl

/-- The global scope binds the same names in both stores. -/
theorem global : Option.Rel p.Related (p.state.store.binding? p.state.globals x)
    (p.store.binding? p.state.globals x) := by
  have h := p.binding p.state.globals x
  rwa [p.globals_unmarked] at h

/-- The states with a new place or new numbers, where the store and what belongs to it is the
same. -/
def atSame (s : State) (hstore : s.store = p.state.store) (hglobals : s.globals = p.state.globals)
    (hdistances : s.distances = p.state.distances) (hhost : s.host = p.state.host)
    (hlast : s.lastValue = p.state.lastValue) : TwinStates ρ where
  state := s
  marking := p.marking
  store := p.store
  lastValue := p.lastValue
  grounded := p.grounded.later hglobals (hstore ▸ .refl _) hhost
  globals_unmarked := hglobals ▸ p.globals_unmarked
  distances_eq := hdistances.trans p.distances_eq
  nextEnv_eq := hstore ▸ p.nextEnv_eq
  nextObject_eq := hstore ▸ p.nextObject_eq
  enclosing_eq := hstore ▸ p.enclosing_eq
  binding e x := by
    have hlater : p.state.Advances p.marking s p.marking :=
      ⟨hglobals, hstore ▸ .refl _, fun _ => rfl⟩
    rw [hstore]
    exact (p.binding e x).imp fun _ _ h => h.mono hlater
  field o x := by
    have hlater : p.state.Advances p.marking s p.marking :=
      ⟨hglobals, hstore ▸ .refl _, fun _ => rfl⟩
    rw [hstore]
    exact (p.field o x).imp fun _ _ h => h.mono hlater
  render_eq := hlast ▸ p.render_eq

/-- The states in another scope. -/
def inScope (scope : EnvId) : TwinStates ρ :=
  p.atSame { p.state with current := scope } rfl rfl rfl rfl rfl

theorem advances_inScope (scope : EnvId) : p.Advances (p.inScope scope) :=
  ⟨rfl, .refl _, fun _ => rfl⟩

/-- The states after twins have become the last values. -/
def note (h : p.Related v v') : TwinStates ρ where
  state := { p.state with lastValue := v }
  marking := p.marking
  store := p.store
  lastValue := v'
  grounded := p.grounded.later rfl (.refl _) rfl
  globals_unmarked := p.globals_unmarked
  distances_eq := p.distances_eq
  nextEnv_eq := p.nextEnv_eq
  nextObject_eq := p.nextObject_eq
  enclosing_eq := p.enclosing_eq
  binding e x := (p.binding e x).imp fun _ _ h => h.mono ⟨rfl, .refl _, fun _ => rfl⟩
  field o x := (p.field o x).imp fun _ _ h => h.mono ⟨rfl, .refl _, fun _ => rfl⟩
  render_eq := h.resembles.render_eq

theorem advances_note (h : p.Related v v') : p.Advances (p.note h) := ⟨rfl, .refl _, fun _ => rfl⟩

theorem advances_define (p : TwinStates ρ) (e : EnvId) (x : String) (v : Value) :
    p.state.Advances p.marking { p.state with store := p.state.store.define e x v } p.marking :=
  ⟨rfl, .define, fun _ => rfl⟩

/-- The states after a name has been bound in a scope: in the second one the name that it is
exchanged for, if the scope is marked. -/
def define (e : EnvId) (hx : ρ.exchange (p.marking e) x = x') (h : p.Related v v') :
    TwinStates ρ where
  state := { p.state with store := p.state.store.define e x v }
  marking := p.marking
  store := p.store.define e x' v'
  lastValue := p.lastValue
  grounded := p.grounded.later rfl .define rfl
  globals_unmarked := p.globals_unmarked
  distances_eq := p.distances_eq
  nextEnv_eq := by rw [Store.nextEnv_define, Store.nextEnv_define, p.nextEnv_eq]
  nextObject_eq := p.nextObject_eq
  enclosing_eq e' := by rw [Store.enclosing?_define, Store.enclosing?_define, p.enclosing_eq]
  binding e' y := by
    have hlater := p.advances_define e x v
    subst hx
    simp only [Store.binding?_define]
    by_cases hbound : e = e' ∧ x = y ∧ p.state.store.HasEnv e
    · obtain ⟨rfl, rfl, he⟩ := hbound
      rw [if_pos ⟨rfl, rfl, he⟩, if_pos ⟨rfl, rfl, p.hasEnv_iff.mpr he⟩]
      exact .some (h.mono hlater)
    · rw [if_neg hbound, if_neg]
      · exact (p.binding e' y).imp fun _ _ h => h.mono hlater
      -- no other name is bound by the way, for an exchange is injective
      · rintro ⟨rfl, hname, he⟩
        exact hbound ⟨rfl, Renaming.exchange_inj.mp hname, p.hasEnv_iff.mp he⟩
  field o y := (p.field o y).imp fun _ _ h => h.mono (p.advances_define e x v)
  render_eq := p.render_eq

theorem advances_addEnv (p : TwinStates ρ) (outer : Option EnvId) (b : Bool) :
    p.state.Advances p.marking { p.state with store := p.state.store.addEnv outer }
      (p.marking.mark p.state.store.nextEnv b) :=
  ⟨rfl, .addEnv, Marking.mark_of_hasEnv⟩

/-- The states after a scope has been added, which may be marked. -/
def addEnv (outer : Option EnvId) (b : Bool) : TwinStates ρ where
  state := { p.state with store := p.state.store.addEnv outer }
  marking := p.marking.mark p.state.store.nextEnv b
  store := p.store.addEnv outer
  lastValue := p.lastValue
  grounded := p.grounded.later rfl .addEnv rfl
  globals_unmarked := (Marking.mark_of_hasEnv p.grounded.hasEnv).trans p.globals_unmarked
  distances_eq := p.distances_eq
  nextEnv_eq := by rw [Store.nextEnv_addEnv, Store.nextEnv_addEnv, p.nextEnv_eq]
  nextObject_eq := p.nextObject_eq
  enclosing_eq e := by
    rw [Store.enclosing?_addEnv, Store.enclosing?_addEnv, p.nextEnv_eq, p.enclosing_eq]
  binding e x := by
    rw [Store.binding?_addEnv, Store.binding?_addEnv]
    by_cases he : e = p.state.store.nextEnv
    · subst he
      -- whether the new scope is marked does not matter yet: it binds nothing
      rw [Store.binding?_nextEnv, ← p.nextEnv_eq, Store.binding?_nextEnv]
      exact .none
    · rw [Marking.mark, if_neg he]
      exact (p.binding e x).imp fun _ _ h => h.mono (p.advances_addEnv outer b)
  field o x := (p.field o x).imp fun _ _ h => h.mono (p.advances_addEnv outer b)
  render_eq := p.render_eq

/-- The states after an object has been added. -/
def addObject : TwinStates ρ where
  state := { p.state with store := p.state.store.addObject }
  marking := p.marking
  store := p.store.addObject
  lastValue := p.lastValue
  grounded := p.grounded.later rfl .addObject rfl
  globals_unmarked := p.globals_unmarked
  distances_eq := p.distances_eq
  nextEnv_eq := p.nextEnv_eq
  nextObject_eq := by
    rw [Store.nextObject_addObject, Store.nextObject_addObject, p.nextObject_eq]
  enclosing_eq := p.enclosing_eq
  binding e x := (p.binding e x).imp fun _ _ h => h.mono ⟨rfl, .addObject, fun _ => rfl⟩
  field o x := by
    rw [Store.field?_addObject, Store.field?_addObject]
    exact (p.field o x).imp fun _ _ h => h.mono ⟨rfl, .addObject, fun _ => rfl⟩
  render_eq := p.render_eq

/-- The states after a field of an object has been given a value. -/
def setField (o : ObjectId) (x : String) (h : p.Related v v') : TwinStates ρ where
  state := { p.state with store := p.state.store.setField o x v }
  marking := p.marking
  store := p.store.setField o x v'
  lastValue := p.lastValue
  grounded := p.grounded.later rfl .setField rfl
  globals_unmarked := p.globals_unmarked
  distances_eq := p.distances_eq
  nextEnv_eq := p.nextEnv_eq
  nextObject_eq := by
    rw [Store.nextObject_setField, Store.nextObject_setField, p.nextObject_eq]
  enclosing_eq := p.enclosing_eq
  binding e x := (p.binding e x).imp fun _ _ h => h.mono ⟨rfl, .setField, fun _ => rfl⟩
  field o' y := by
    simp only [Store.field?_setField, p.hasObject_iff]
    by_cases hset : o = o' ∧ x = y ∧ p.state.store.HasObject o
    · rw [if_pos hset, if_pos hset]
      exact .some (h.mono ⟨rfl, .setField, fun _ => rfl⟩)
    · rw [if_neg hset, if_neg hset]
      exact (p.field o' y).imp fun _ _ h => h.mono ⟨rfl, .setField, fun _ => rfl⟩
  render_eq := p.render_eq

theorem marked_addEnv (h : p.Marked e marks) (b : Bool) :
    (p.addEnv (some e) b).Marked p.state.store.nextEnv (b :: marks) :=
  ⟨Marking.mark_self _, e, Store.enclosing?_addEnv_nextEnv, h.mono (p.advances_addEnv _ b)⟩

theorem exchange_addEnv {outer : Option EnvId} :
    ρ.exchange ((p.addEnv outer false).marking p.state.store.nextEnv) x = x := by
  rw [show (p.addEnv outer false).marking p.state.store.nextEnv = false from Marking.mark_self _]
  rfl

/-- Parameters are bound to twins of what they are bound to in the first run. -/
theorem exists_defineAll (names : List Name) {values values' : List Value} {b : Bool}
    (he : p.marking e = b) (h : List.Forall₂ p.Related values values') :
    ∃ q : TwinStates ρ, p.Advances q ∧ q.marking = p.marking ∧
      q.state = { p.state with
        store := p.state.store.defineAll e (names.map Name.text) values } ∧
      q.other = { p.other with
        store := p.store.defineAll e ((names.map (ρ.twinName b)).map Name.text) values' } := by
  induction names generalizing p values values' with
  | nil => exact ⟨p, .refl _ _, rfl, rfl, rfl⟩
  | cons name names ih =>
      cases h with
      | nil => exact ⟨p, .refl _ _, rfl, rfl, rfl⟩
      | cons hv hrest =>
          let p' := p.define e (x := name.text) (by rw [he]) hv
          have hlater : p.Advances p' := p.advances_define _ _ _
          obtain ⟨q, hq, hmarking, hstate, hother⟩ :=
            ih p' he (hrest.imp fun _ _ h => h.mono hlater)
          exact ⟨q, hlater.trans hq, hmarking, hstate, hother⟩

end TwinStates

end ScopedScript
