import ScopedScript.Proofs.Store.Extension

/-!
# Chains of scopes

The scopes from one on outwards form a chain. In a store that is built by the operations on scopes
each scope is enclosed by one that was there before it, so every chain ends. Going up a chain by a
distance and searching it for a name are both views of it as a list: the one takes the element at an
index, the other one finds the first element that binds the name.
-/

namespace ScopedScript

namespace Store

/-- The stores that the operations on scopes lead to. -/
inductive Built : Store → Prop
  | empty : Built .empty
  | new {st : Store} : Built st → Built (st.addEnv none)
  | child {st : Store} {e : EnvId} : Built st → st.HasEnv e → Built (st.addEnv (some e))
  | define {st : Store} {e : EnvId} {x : String} {v : Value} : Built st → Built (st.define e x v)
  | assign {st st' : Store} {e : EnvId} {x : String} {v : Value} :
      Built st → st.assign? e x v = some st' → Built st'
  | defineAt {st st' : Store} {e : EnvId} {d : Nat} {x : String} {v : Value} :
      Built st → st.defineAt? e d x v = some st' → Built st'

/-- Each scope is enclosed by one that was there before it. -/
def Ordered (st : Store) : Prop := ∀ e outer, st.enclosing? e = some outer → outer < e

/-- The scopes from one on outwards, up to one that no other encloses. -/
inductive IsChain (st : Store) : EnvId → List EnvId → Prop
  | outermost {e : EnvId} : st.enclosing? e = none → IsChain st e [e]
  | enclosed {e outer : EnvId} {chain : List EnvId} :
      st.enclosing? e = some outer → IsChain st outer chain → IsChain st e (e :: chain)

variable {st st' : Store} {e outer target : EnvId} {x y : String} {v : Value} {d fuel : Nat}
variable {chain : List EnvId}

theorem exists_of_assign?_eq_some (h : st.assign? e x v = some st') :
    ∃ binder, st.binder? e x = some binder ∧ st' = st.define binder x v := by
  unfold assign? at h
  cases hbinder : st.binder? e x with
  | none =>
      rw [hbinder] at h
      cases h
  | some binder =>
      rw [hbinder] at h
      cases h
      exact ⟨binder, rfl, rfl⟩

theorem exists_of_defineAt?_eq_some (h : st.defineAt? e d x v = some st') :
    ∃ target, st.ancestor? e d = some target ∧ st' = st.define target x v := by
  unfold defineAt? at h
  cases htarget : st.ancestor? e d with
  | none =>
      rw [htarget] at h
      cases h
  | some target =>
      rw [htarget] at h
      cases h
      exact ⟨target, rfl, rfl⟩

theorem Ordered.define (h : st.Ordered) : (st.define e x v).Ordered := by
  intro e' outer houter
  rw [enclosing?_define] at houter
  exact h e' outer houter

/-- In a store that is built by operations on scopes, each scope is enclosed by an earlier one. -/
theorem Built.ordered (h : st.Built) : st.Ordered := by
  induction h with
  | empty =>
      intro e outer houter
      simp [Store.empty, enclosing?] at houter
  | @new st _ ih =>
      intro e outer houter
      rw [enclosing?_addEnv] at houter
      by_cases he : e = st.nextEnv
      · rw [if_pos he] at houter
        cases houter
      · rw [if_neg he] at houter
        exact ih e outer houter
  | @child st e' _ henv ih =>
      intro e outer houter
      rw [enclosing?_addEnv] at houter
      by_cases he : e = st.nextEnv
      · rw [if_pos he] at houter
        cases houter
        exact he ▸ henv
      · rw [if_neg he] at houter
        exact ih e outer houter
  | define _ ih => exact ih.define
  | assign _ hassign ih =>
      obtain ⟨binder, _, rfl⟩ := exists_of_assign?_eq_some hassign
      exact ih.define
  | defineAt _ hdefine ih =>
      obtain ⟨target, _, rfl⟩ := exists_of_defineAt?_eq_some hdefine
      exact ih.define

/-- Every chain ends, after at most as many scopes as there are up to its first one. -/
theorem Ordered.exists_isChain (h : st.Ordered) (e : EnvId) :
    ∃ chain, st.IsChain e chain ∧ chain.length ≤ e + 1 := by
  induction e using Nat.strongRecOn with
  | ind e ih =>
    cases houter : st.enclosing? e with
    | none => exact ⟨[e], .outermost houter, by simp⟩
    | some outer =>
        have hlt := h e outer houter
        obtain ⟨chain, hchain, hlength⟩ := ih outer hlt
        refine ⟨e :: chain, .enclosed houter hchain, ?_⟩
        exact Nat.succ_le_succ (Nat.le_trans hlength hlt)

namespace IsChain

theorem unique (h : st.IsChain e chain) {chain' : List EnvId} (h' : st.IsChain e chain') :
    chain = chain' := by
  induction h generalizing chain' with
  | outermost houter =>
      cases h' with
      | outermost => rfl
      | enclosed houter' _ => exact nomatch houter.symm.trans houter'
  | enclosed houter _ ih =>
      cases h' with
      | outermost houter' => exact nomatch houter.symm.trans houter'
      | enclosed houter' hlater' =>
          obtain rfl := Option.some.inj (houter.symm.trans houter')
          rw [ih hlater']

/-- Going up a chain by a distance leads to the scope at this index, if there is one. -/
theorem ancestor?_eq (h : st.IsChain e chain) (d : Nat) : st.ancestor? e d = chain[d]? := by
  induction h generalizing d with
  | outermost houter =>
      cases d with
      | zero => rfl
      | succ d =>
          unfold ancestor?
          rw [houter]
          rfl
  | enclosed houter _ ih =>
      cases d with
      | zero => rfl
      | succ d =>
          unfold ancestor?
          rw [houter]
          exact ih d

/-- Searching a chain finds the first of its scopes that binds the name, if there is fuel for the
whole chain. -/
theorem binderWithin?_eq (h : st.IsChain e chain) (hfuel : chain.length ≤ fuel) :
    st.binderWithin? x fuel e = chain.find? fun e => (st.binding? e x).isSome := by
  induction h generalizing fuel with
  | @outermost e houter =>
      obtain ⟨fuel, rfl⟩ := Nat.exists_eq_add_one.mpr hfuel
      unfold binderWithin?
      rw [houter, Option.bind_none]
      cases hbinds : (st.binding? e x).isSome <;> simp [hbinds]
  | @enclosed e outer chain houter _ ih =>
      obtain ⟨fuel, rfl⟩ := Nat.exists_eq_add_one.mpr (Nat.lt_of_lt_of_le (Nat.succ_pos _) hfuel)
      have hlater := ih (Nat.le_of_succ_le_succ hfuel)
      unfold binderWithin?
      rw [houter, Option.bind_some, hlater]
      cases hbinds : (st.binding? e x).isSome <;> simp [hbinds]

end IsChain

/-- In a store in which each scope is enclosed by an earlier one, a search finds the first scope of
the chain that binds the name. -/
theorem Ordered.binder?_eq (h : st.Ordered) (hchain : st.IsChain e chain) :
    st.binder? e x = chain.find? fun e => (st.binding? e x).isSome := by
  obtain ⟨chain', hchain', hlength⟩ := h.exists_isChain e
  obtain rfl := hchain.unique hchain'
  exact hchain.binderWithin?_eq hlength

/-- More fuel than there are scopes up to the first one of a chain makes no difference to a search
of it. -/
theorem Ordered.binderWithin?_eq (h : st.Ordered) (hfuel : e < fuel) :
    st.binderWithin? x fuel e = st.binder? e x := by
  obtain ⟨chain, hchain, hlength⟩ := h.exists_isChain e
  rw [hchain.binderWithin?_eq (Nat.le_trans hlength hfuel), h.binder?_eq hchain]

/-- The nearest scope of a chain that binds a name stands at a given distance. -/
structure BindsNearest (st : Store) (chain : List EnvId) (x : String) (d : Nat) (target : EnvId) :
    Prop where
  getElem?_eq : chain[d]? = some target
  binds : st.Binds target x
  nearest : ∀ k < d, ∀ e, chain[k]? = some e → ¬st.Binds e x

theorem BindsNearest.binder?_eq (hnearest : st.BindsNearest chain x d target) (h : st.Ordered)
    (hchain : st.IsChain e chain) : st.binder? e x = some target := by
  obtain ⟨hd, htarget⟩ := List.getElem?_eq_some_iff.mp hnearest.getElem?_eq
  rw [h.binder?_eq hchain, List.find?_eq_some_iff_getElem]
  refine ⟨hnearest.binds, d, hd, htarget, fun k hk => ?_⟩
  have hnot := hnearest.nearest k hk _ (List.getElem?_eq_getElem (Nat.lt_trans hk hd))
  simpa [Binds] using hnot

theorem binder?_eq_none (h : st.Ordered) (hchain : st.IsChain e chain)
    (hunbound : ∀ e' ∈ chain, ¬st.Binds e' x) : st.binder? e x = none := by
  rw [h.binder?_eq hchain]
  exact List.find?_eq_none.mpr hunbound

/-- One store is another one but for the value of one name in one scope. The new value is seen from
every scope from which a search for the name ends at that one. -/
structure Overwrites (st : Store) (target : EnvId) (x : String) (v : Value) (st' : Store) :
    Prop where
  binding : ∀ e y, st'.binding? e y = if e = target ∧ y = x then some v else st.binding? e y
  others : ∀ e ≠ target, st'.envs[e]? = st.envs[e]?
  enclosing : ∀ e, st'.enclosing? e = st.enclosing? e
  hasEnv : ∀ e, st'.HasEnv e ↔ st.HasEnv e
  fields : st'.fields = st.fields
  lookup : ∀ e y, st'.lookup? e y =
    if y = x ∧ st.binder? e x = some target then some v else st.lookup? e y

/-- Giving a bound name a new value unbinds and binds nothing. -/
theorem isSome_binding?_define (h : st.Binds target x) :
    ((st.define target x v).binding? e y).isSome = (st.binding? e y).isSome := by
  rw [binding?_define]
  by_cases hsame : target = e ∧ x = y ∧ st.HasEnv target
  · rw [if_pos hsame]
    obtain ⟨rfl, rfl, _⟩ := hsame
    exact h.symm
  · rw [if_neg hsame]

/-- Searches end at the same scopes when a bound name has been given a new value. -/
theorem binder?_define (h : st.Binds target x) :
    (st.define target x v).binder? e y = st.binder? e y := by
  have hwithin (fuel : Nat) (e : EnvId) :
      (st.define target x v).binderWithin? y fuel e = st.binderWithin? y fuel e := by
    induction fuel generalizing e with
    | zero => rfl
    | succ fuel ih =>
        unfold binderWithin?
        rw [isSome_binding?_define h, enclosing?_define]
        cases st.enclosing? e with
        | none => rfl
        | some outer => rw [Option.bind_some, Option.bind_some, ih outer]
  exact hwithin (e + 1) e

theorem lookup?_define (h : st.Binds target x) : (st.define target x v).lookup? e y =
    if y = x ∧ st.binder? e x = some target then some v else st.lookup? e y := by
  obtain ⟨w, hw⟩ := binds_iff.mp h
  have henv : st.HasEnv target := hasEnv_of_binding? hw
  unfold lookup?
  rw [binder?_define h]
  by_cases hreached : y = x ∧ st.binder? e x = some target
  · obtain ⟨rfl, hbinder⟩ := hreached
    rw [if_pos ⟨rfl, hbinder⟩, hbinder]
    exact binding?_define_self henv
  · rw [if_neg hreached]
    cases hbinder : st.binder? e y with
    | none => rfl
    | some binder =>
        have hother : ¬(target = binder ∧ x = y ∧ st.HasEnv target) := by
          rintro ⟨rfl, rfl, _⟩
          exact hreached ⟨rfl, hbinder⟩
        rw [Option.bind_some, Option.bind_some, binding?_define, if_neg hother]

/-- Giving a name a new value in a scope that binds it changes nothing else. -/
theorem overwrites_define (h : st.Binds target x) :
    st.Overwrites target x v (st.define target x v) where
  binding e y := by
    obtain ⟨w, hw⟩ := binds_iff.mp h
    have henv : st.HasEnv target := hasEnv_of_binding? hw
    simp only [binding?_define, henv, and_true, eq_comm]
  others e hne := by
    unfold define
    rw [Array.getElem?_modify, if_neg hne.symm]
  enclosing _ := enclosing?_define
  hasEnv _ := hasEnv_define
  fields := rfl
  lookup _ _ := lookup?_define h

end Store

end ScopedScript
