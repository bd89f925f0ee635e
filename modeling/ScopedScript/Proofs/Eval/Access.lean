import ScopedScript.Eval.State
import ScopedScript.Proofs.Outcome
import ScopedScript.Proofs.Store.Chain

/-!
# Access to names

A name is read or given a new value by searching a chain of scopes for it, or by going up the chain
by a distance. The two agree where the distance is that of the nearest scope that binds the name. If
there is no such scope the search fails, and if there is no scope at a distance the way to it does;
neither changes anything then. Running programs read and assign by these means alone.
-/

namespace ScopedScript.Eval

variable {s : State} {e : EnvId} {name : Name} {v w : Value} {d : Nat} {target : EnvId}
variable {st : Store} {chain : List EnvId}

section Equations

theorem readFrom_apply : readFrom e name s =
    match s.store.lookup? e name.text with
    | some value => .ok value s
    | none => .fault (.runtime (.undefinedVariable name.text) name.line) s := by
  unfold readFrom
  rw [Run.bind_of_ok (Run.get_apply s)]
  cases s.store.lookup? e name.text <;> rfl

theorem assignFrom_apply : assignFrom e name v s =
    match s.store.binder? e name.text with
    | some target => .ok () { s with store := s.store.define target name.text v }
    | none => .fault (.runtime (.undefinedVariable name.text) name.line) s := by
  unfold assignFrom Store.assign?
  rw [Run.bind_of_ok (Run.get_apply s)]
  cases s.store.binder? e name.text <;> rfl

theorem ancestorAt_apply : ancestorAt e d name s =
    match s.store.ancestor? e d with
    | some target => .ok target s
    | none => .fault (.runtime (.scopeMismatch d name.text) name.line) s := by
  unfold ancestorAt
  rw [Run.bind_of_ok (Run.get_apply s)]
  cases s.store.ancestor? e d <;> rfl

theorem readAt_apply : readAt e d name s =
    match s.store.ancestor? e d with
    | some target =>
      match s.store.binding? target name.text with
      | some value => .ok value s
      | none => .fault (.runtime (.unboundLocal name.text) name.line) s
    | none => .fault (.runtime (.scopeMismatch d name.text) name.line) s := by
  unfold readAt Store.lookupAt
  rw [Run.bind_of_ok (Run.get_apply s)]
  cases s.store.ancestor? e d with
  | some target =>
      dsimp only
      cases s.store.binding? target name.text <;> rfl
  | none => rfl

theorem defineAt_apply : defineAt e d name v s =
    match s.store.ancestor? e d with
    | some target => .ok () { s with store := s.store.define target name.text v }
    | none => .fault (.runtime (.scopeMismatch d name.text) name.line) s := by
  unfold defineAt Store.defineAt?
  rw [Run.bind_of_ok (Run.get_apply s)]
  cases s.store.ancestor? e d <;> rfl

theorem readAt_of_ancestor? (htarget : s.store.ancestor? e d = some target)
    (hv : s.store.binding? target name.text = some v) : readAt e d name s = .ok v s := by
  rw [readAt_apply, htarget]
  dsimp only
  rw [hv]

/-- A running program reads a reference in the scope at its distance, or else from the global scope
on. -/
theorem read_apply (id : NodeId) : read id name s =
    match s.distances[id]? with
    | some d => readAt s.current d name s
    | none => readFrom s.globals name s := by
  unfold read
  rw [Run.bind_of_ok (Run.get_apply s)]
  cases s.distances[id]? with
  | some d => rfl
  | none => rfl

/-- A running program assigns to a reference in the scope at its distance, or else from the global
scope on. -/
theorem assign_apply (ref : Reference) : assign ref v s =
    match s.distances[ref.id]? with
    | some d => defineAt s.current d ref.name v s
    | none => assignFrom s.globals ref.name v s := by
  unfold assign assignmentTarget
  rw [bind_assoc, Run.bind_of_ok (Run.get_apply s)]
  cases s.distances[ref.id]? with
  | some d =>
      dsimp only
      rw [defineAt_apply]
      cases s.store.ancestor? s.current d <;> rfl
  | none =>
      dsimp only
      rw [assignFrom_apply]
      cases s.store.binder? s.globals ref.name.text <;> rfl

end Equations

/-- Searching and going up by a distance agree. Every chain of scopes ends. At the distance of the
nearest scope of a chain that binds a name, a search and the way up read the same value, and they
overwrite the same binding and nothing else: the new value is seen from every scope from which a
search for the name ends there. If no scope of the chain binds the name, a search finds it undefined
and changes nothing. The way up leads to the scopes of the chain, and it fails without a change at
the distances at which there is none. -/
theorem access_agrees (hs : s.store.Built) (e : EnvId) (name : Name) (v : Value) :
    ∃ chain, s.store.IsChain e chain ∧
      (∀ d target, s.store.BindsNearest chain name.text d target →
        (∃ w, s.store.binding? target name.text = some w ∧
          readFrom e name s = .ok w s ∧ readAt e d name s = .ok w s) ∧
        ∃ st, s.store.Overwrites target name.text v st ∧
          assignFrom e name v s = .ok () { s with store := st } ∧
          defineAt e d name v s = .ok () { s with store := st }) ∧
      ((∀ e' ∈ chain, ¬s.store.Binds e' name.text) →
        readFrom e name s = .fault (.runtime (.undefinedVariable name.text) name.line) s ∧
        assignFrom e name v s = .fault (.runtime (.undefinedVariable name.text) name.line) s) ∧
      ∀ d,
        (∀ target, chain[d]? = some target ↔ ancestorAt e d name s = .ok target s) ∧
        (chain.length ≤ d ↔ ancestorAt e d name s =
          .fault (.runtime (.scopeMismatch d name.text) name.line) s) ∧
        (chain.length ≤ d ↔ readAt e d name s =
          .fault (.runtime (.scopeMismatch d name.text) name.line) s) ∧
        (chain.length ≤ d ↔ defineAt e d name v s =
          .fault (.runtime (.scopeMismatch d name.text) name.line) s) := by
  have hordered := hs.ordered
  obtain ⟨chain, hchain, _⟩ := hordered.exists_isChain e
  refine ⟨chain, hchain, fun d target hnearest => ?_, fun hunbound => ?_, fun d => ?_⟩
  · have hancestor : s.store.ancestor? e d = some target :=
      (hchain.ancestor?_eq d).trans hnearest.getElem?_eq
    have hbinder : s.store.binder? e name.text = some target := hnearest.binder?_eq hordered hchain
    obtain ⟨w, hw⟩ := Store.binds_iff.mp hnearest.binds
    have hlookup : s.store.lookup? e name.text = some w := by
      rw [Store.lookup?, hbinder, Option.bind_some, hw]
    refine ⟨⟨w, hw, ?_, readAt_of_ancestor? hancestor hw⟩,
      s.store.define target name.text v, Store.overwrites_define hnearest.binds, ?_, ?_⟩
    · rw [readFrom_apply, hlookup]
    · rw [assignFrom_apply, hbinder]
    · rw [defineAt_apply, hancestor]
  · have hbinder : s.store.binder? e name.text = none :=
      Store.binder?_eq_none hordered hchain hunbound
    have hlookup : s.store.lookup? e name.text = none := by
      rw [Store.lookup?, hbinder, Option.bind_none]
    exact ⟨by rw [readFrom_apply, hlookup], by rw [assignFrom_apply, hbinder]⟩
  · rw [← List.getElem?_eq_none_iff, ancestorAt_apply, readAt_apply, defineAt_apply,
      hchain.ancestor?_eq d]
    cases chain[d]? with
    | none => simp
    | some target =>
        refine ⟨by simp, by simp, ?_, by simp⟩
        dsimp only
        cases s.store.binding? target name.text <;> simp

/-- For example, of a scope two scopes inside the one that binds the name. -/
theorem access_agrees_of_grandchild :
    let global := (Store.empty.addEnv none).define 0 "x" (.bool true)
    let st := (global.addEnv (some 0)).addEnv (some 1)
    let s : State := { State.initial (.ofClock fun _ => 0) .accepting with store := st }
    let name : Name := ⟨"x", 3⟩
    st.Built ∧ readFrom 2 name s = readAt 2 2 name s ∧
      (∃ st', assignFrom 2 name .nil s = .ok () { s with store := st' } ∧
        defineAt 2 2 name .nil s = .ok () { s with store := st' } ∧
        st'.lookup? 1 "x" = some .nil) ∧
      ancestorAt 2 3 name s = .fault (.runtime (.scopeMismatch 3 "x") 3) s := by
  intro global st s name
  have hglobal : global.Built := Store.Built.empty.new.define
  have hbuilt : s.store.Built := (hglobal.child (by decide)).child (by decide)
  obtain ⟨chain, hchain, hnear, _, hdistance⟩ := access_agrees hbuilt 2 name .nil
  obtain rfl : chain = [2, 1, 0] :=
    hchain.unique (.enclosed rfl (.enclosed rfl (.outermost rfl)))
  have hnearest : s.store.BindsNearest [2, 1, 0] "x" 2 0 := by
    refine ⟨rfl, rfl, fun k hk e he => ?_⟩
    match k, hk with
    | 0, _ =>
        cases he
        exact Bool.false_ne_true
    | 1, _ =>
        cases he
        exact Bool.false_ne_true
  obtain ⟨⟨w, _, hread, hreadAt⟩, st', hoverwrites, hassign, hdefine⟩ := hnear 2 0 hnearest
  refine ⟨hbuilt, hread.trans hreadAt.symm, ⟨st', hassign, hdefine, ?_⟩, ?_⟩
  · exact (hoverwrites.lookup 1 "x").trans (if_pos ⟨rfl, rfl⟩)
  · exact (hdistance 3).2.1.mp (Nat.le_refl 3)

end ScopedScript.Eval
