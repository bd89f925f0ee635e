import ScopedScript.Proofs.Eval.Places
import ScopedScript.Proofs.Session.Record

/-!
# Assignments overwrite

In a session, an assignment whose right side has a value gives this value to a variable that has one
already, or finds the variable undefined and changes nothing. There is one way around this: a local
variable that its own initial value assigns to is bound by that assignment, ahead of the
declaration.
-/

namespace ScopedScript

/-- The scope that an assignment to a reference is meant for: the one at its distance if it has one,
else the global scope. -/
def State.Targets (s : State) (ref : Reference) (target : EnvId) : Prop :=
  match s.distances[ref.id]? with
  | some distance => s.store.ancestor? s.current distance = some target
  | none => target = s.globals

/-- A state differs from another one at most in the value of a name that is bound in both. -/
structure State.Overwrites (s : State) (target : EnvId) (x : String) (v : Value) (s' : State) :
    Prop where
  bound : s.store.Binds target x
  eq : s' = { s with store := s.store.define target x v }
  binding : ∀ e y, s'.store.binding? e y =
    if e = target ∧ y = x then some v else s.store.binding? e y

/-- How an assignment ends that declares nothing, once its right side has the value `v`: the name is
bound in the scope that the assignment is meant for and has the new value there, or it is not bound
there, and all is as it was. -/
def State.DeclaresNothing (s : State) (ref : Reference) (v : Value)
    (result : Outcome Halt State Value) : Prop :=
  ∃ target, s.Targets ref target ∧
    ((∃ s', result = .ok v s' ∧ s.Overwrites target ref.name.text v s') ∨
      ¬s.store.Binds target ref.name.text ∧
        result = .fault (.runtime (.undefinedVariable ref.name.text) ref.name.line) s)

/-- An assignment stands in the initial value of the variable that it assigns to, and the
declaration of the variable is on record, executed in a given scope. -/
def InOwnInitializer (h : List Moment) (current : EnvId) (ref : Reference) : Prop :=
  ∃ m ∈ h, ∃ name initial, m.event = .executes (.var name (some initial)) ∧
    m.state.current = current ∧ name.text = ref.name.text ∧
    ref.occurrence .assign ∈ initial.occurrences

/-- A name that scopes have only begun to declare is that of the innermost one. -/
theorem Scopes.locate?_of_not_readable {Γ : Scopes} {x : String} (h : ¬Γ.Readable x) :
    Γ.locate? x = some 0 := by
  cases Γ with
  | nil => exact (h trivial).elim
  | cons scope outer =>
      have hlookup : scope.lookup x = some false := Decidable.of_not_not h
      rw [Scopes.locate?_cons, if_pos (by simp [Scope.declares, hlookup])]

namespace Eval

variable {n : NodeId} {h : List Moment} {s : State} {ref : Reference} {value : Expr} {v : Value}
variable {setting : Setting} {Γ : Scopes} {fuel : Nat} {t : State} {target : EnvId}

theorem eval_assign_of_ok (hvalue : eval fuel value s = .ok v t)
    (htarget : assignmentTarget ref t = .ok target t) : eval (fuel + 1) (.assign ref value) s =
      .ok v { t with store := t.store.define target ref.name.text v } := by
  refine (Run.bind_of_ok hvalue).trans ?_
  unfold assign
  rw [bind_assoc, Run.bind_of_ok htarget]
  rfl

theorem eval_assign_of_fault {halt : Halt} (hvalue : eval fuel value s = .ok v t)
    (htarget : assignmentTarget ref t = .fault halt t) :
    eval (fuel + 1) (.assign ref value) s = .fault halt t := by
  refine (Run.bind_of_ok hvalue).trans ?_
  unfold assign
  rw [bind_assoc, Run.bind_apply, htarget]

theorem assignmentTarget_of_local {d : Nat} (hdistance : s.distances[ref.id]? = some d)
    (htarget : s.store.ancestor? s.current d = some target) :
    assignmentTarget ref s = .ok target s := by
  unfold assignmentTarget
  rw [Run.bind_of_ok (Run.get_apply s)]
  simp only [hdistance, htarget]
  rfl

theorem assignmentTarget_of_global (hdistance : s.distances[ref.id]? = none)
    (hbinds : s.store.Binds s.globals ref.name.text) :
    assignmentTarget ref s = .ok s.globals s := by
  unfold assignmentTarget
  rw [Run.bind_of_ok (Run.get_apply s)]
  simp only [hdistance, Store.binder?_of_binds hbinds]
  rfl

theorem assignmentTarget_of_undefined (hdistance : s.distances[ref.id]? = none)
    (hgrounded : s.Grounded) (hbinds : ¬s.store.Binds s.globals ref.name.text) :
    assignmentTarget ref s =
      .fault (.runtime (.undefinedVariable ref.name.text) ref.name.line) s := by
  have hbinder : s.store.binder? s.globals ref.name.text = none :=
    (Store.binder?_of_outermost hgrounded.outermost).trans (if_neg hbinds)
  unfold assignmentTarget
  rw [Run.bind_of_ok (Run.get_apply s)]
  simp only [hdistance, hbinder]
  rfl

theorem overwrites_define {x : String} (hbound : s.store.Binds target x) :
    s.Overwrites target x v { s with store := s.store.define target x v } where
  bound := hbound
  eq := rfl
  binding := (Store.overwrites_define hbound).binding

/-- An assignment overwrites, or it stands in the initial value of the variable that it assigns
to. -/
theorem assign_declaresNothing (hs : s.SoundAt n setting Γ) (hgrounded : s.Grounded)
    (hfits : Fits n s.distances ((Expr.assign ref value).Obeys setting Γ)
      ((Expr.assign ref value).records Γ))
    (hp : Pending h s.current Γ (Expr.assign ref value).occurrences)
    (hvalue : eval fuel value s = .ok v t) :
    t.DeclaresNothing ref v (eval (fuel + 1) (.assign ref value) s) ∨
      InOwnInitializer h t.current ref ∧ t.distances[ref.id]? = some 0 ∧
        ¬t.store.Binds t.current ref.name.text ∧
        eval (fuel + 1) (.assign ref value) s =
          .ok v { t with store := t.store.define t.current ref.name.text v } := by
  obtain ⟨hvalueRecords, href⟩ := Recorded.append hfits.recorded
  have hsafe := (safeWith n fuel).eval value hs ⟨hfits.keeps, hvalueRecords⟩
  have hgrows : s.Grows t := ((keepsPlaceWith fuel).eval value s).ok hvalue
  have ht : t.SoundAt n setting Γ := hs.later hgrows (hsafe.ok hvalue).1
  have hrecord : t.distances[ref.id]? = Γ.locate? ref.name.text := by
    rw [hgrows.distances_eq]
    exact (Recorded.cons href).1.2
  cases hlocate : Γ.locate? ref.name.text with
  | none =>
      rw [hlocate] at hrecord
      have htargets : t.Targets ref t.globals := by simp only [State.Targets, hrecord]
      refine .inl ⟨t.globals, htargets, ?_⟩
      by_cases hbinds : t.store.Binds t.globals ref.name.text
      · have htarget := assignmentTarget_of_global hrecord hbinds
        exact .inl ⟨_, eval_assign_of_ok hvalue htarget, overwrites_define hbinds⟩
      · have hground := hgrounded.later hgrows.globals_eq hgrows.store_extends hgrows.host_eq
        have htarget := assignmentTarget_of_undefined hrecord hground hbinds
        exact .inr ⟨hbinds, eval_assign_of_fault hvalue htarget⟩
  | some d =>
      rw [hlocate] at hrecord
      obtain ⟨scope, hscope, hdeclares⟩ := Scopes.getElem?_of_locate? hlocate
      obtain ⟨target, htarget, hbinds⟩ := ht.matches.exists_ancestor? hscope
      have hassign := eval_assign_of_ok hvalue (assignmentTarget_of_local hrecord htarget)
      have htargets : t.Targets ref target := by simp only [State.Targets, hrecord, htarget]
      by_cases hbound : t.store.Binds target ref.name.text
      · exact .inl ⟨target, htargets, .inl ⟨_, hassign, overwrites_define hbound⟩⟩
      -- The scope only has begun to declare the name, so it is the innermost one.
      have hreadable : ¬Γ.Readable ref.name.text := by
        intro hreadable
        obtain ⟨scope', hscope', hlookup⟩ :=
          ht.nested.exists_lookup_of_locate? hreadable hlocate
        rw [hscope] at hscope'
        cases hscope'
        exact hbound (hbinds _ hlookup)
      rw [Scopes.locate?_of_not_readable hreadable] at hlocate
      cases hlocate
      cases htarget
      obtain ⟨m, hm, name, initial, hevent, hcurrent, hname, hos⟩ := hp _ hreadable
      refine .inr ⟨⟨m, hm, name, initial, hevent, ?_, hname, hos List.mem_cons_self⟩, hrecord,
        hbound, hassign⟩
      rw [hcurrent, hgrows.current_eq]

end Eval

namespace Session

variable {h : List Moment} {m : Moment} {s : Session}

/-- Expressions are evaluated at places of which this is known, when a program is run that is ready
for it. -/
theorem placed_preparedMoments {ε : Type} {fuel : Nat} {preparation : Run ε Session (List Stmt)}
    {F : ε → Session → Prop}
    (hprepare : preparation.Ensures s (fun program s' => s'.ReadyFor program) F) :
    ∃ n, Placed n h (preparedMoments fuel preparation s) := by
  unfold preparedMoments
  cases hend : preparation s with
  | ok program s₁ =>
      have hready := hprepare.ok hend
      exact ⟨_, Eval.placed_programMoments fuel hready.sound hready.current_eq hready.formed
        hready.fits⟩
  | fault _ _ | exhausted => exact ⟨0, trivial⟩

theorem Occurs.placed (hm : Occurs h m) : ∃ n, m.event.Placed n h m.state := by
  cases hm with
  | run hpast hsplit =>
      obtain ⟨n, hplaced⟩ := placed_preparedMoments (ensures_prepare _ hpast.reachable.sound)
      exact ⟨n, hplaced.of_split hsplit⟩
  | runLine hpast hsplit =>
      obtain ⟨n, hplaced⟩ := placed_preparedMoments (ensures_prepareLine _ hpast.reachable.sound)
      exact ⟨n, hplaced.of_split hsplit⟩

/-- Assignments overwrite. Whenever in a session an assignment is evaluated whose right side has a
value, it gives this value to a name that the scope it is meant for binds already, and leaves all
other bindings as they were, or the name is not bound there and found undefined, and all is left as
it was. The only exception is an assignment in the initial value of the local variable that it
assigns to: if the variable has no value yet, it is bound. -/
theorem assignments_overwrite {ref : Reference} {value : Expr} (hm : Occurs h m)
    (hevent : m.event = .evaluates (.assign ref value)) {fuel : Nat} {v : Value} {t : State}
    (hvalue : Eval.eval fuel value m.state = .ok v t) :
    t.DeclaresNothing ref v (Eval.eval (fuel + 1) (.assign ref value) m.state) ∨
      InOwnInitializer h t.current ref ∧ t.distances[ref.id]? = some 0 ∧
        ¬t.store.Binds t.current ref.name.text ∧
        Eval.eval (fuel + 1) (.assign ref value) m.state =
          .ok v { t with store := t.store.define t.current ref.name.text v } := by
  obtain ⟨n, hplaced⟩ := hm.placed
  obtain ⟨_, hchronicle⟩ := hm.exists_chronicle
  rw [hevent] at hplaced
  obtain ⟨setting, Γ, hs, hfits, hp⟩ := hplaced
  exact Eval.assign_declaresNothing hs hchronicle.grounded hfits hp hvalue

/-- For example, an assignment to a global variable that has been declared before. -/
theorem assignments_overwrite_global : ∃ h m, Occurs h m ∧
    m.event = .evaluates (.assign ⟨0, ⟨"x", 1⟩⟩ (.literal (.bool true))) ∧
    m.state.DeclaresNothing ⟨0, ⟨"x", 1⟩⟩ (.bool true)
      (Eval.eval 2 (.assign ⟨0, ⟨"x", 1⟩⟩ (.literal (.bool true))) m.state) := by
  have hassign : ∃ m, (firstMoments 9 "var x; x = true;")[2]? = some m ∧
      m.event = .evaluates (.assign ⟨0, ⟨"x", 1⟩⟩ (.literal (.bool true))) ∧
      m.state.distances[0]? = none := ⟨_, by cbv, by cbv, by cbv⟩
  obtain ⟨m, hmoment, hevent, hdistance⟩ := hassign
  have hm := occurs_of_getElem? hmoment
  have hvalue : Eval.eval 1 (.literal (.bool true)) m.state = .ok (.bool true) m.state := rfl
  refine ⟨_, m, hm, hevent, (assignments_overwrite hm hevent hvalue).resolve_right ?_⟩
  rintro ⟨_, hlocal, _⟩
  rw [hdistance] at hlocal
  cases hlocal

/-- A local variable that its own initial value assigns to is bound by the assignment. -/
theorem not_assignments_overwrite_in_initializer : ¬∀ (h : List Moment) (m : Moment)
    (ref : Reference) (value : Expr) (fuel : Nat) (v : Value) (t : State), Occurs h m →
    m.event = .evaluates (.assign ref value) → Eval.eval fuel value m.state = .ok v t →
    t.DeclaresNothing ref v (Eval.eval (fuel + 1) (.assign ref value) m.state) := by
  intro hlaw
  have hassign : ∃ m t, (firstMoments 9 "{ var x = x = true; print x; }")[3]? = some m ∧
      m.event = .evaluates (.assign ⟨0, ⟨"x", 1⟩⟩ (.literal (.bool true))) ∧
      m.state.distances[0]? = some 0 ∧
      m.state.store.binding? m.state.current "x" = none ∧
      Eval.eval 2 (.assign ⟨0, ⟨"x", 1⟩⟩ (.literal (.bool true))) m.state =
        .ok (.bool true) t := ⟨_, _, by cbv, by cbv, by cbv, by cbv, by cbv⟩
  obtain ⟨m, t, hmoment, hevent, hdistance, hunbound, hrun⟩ := hassign
  obtain ⟨target, htarget, ⟨_, _, hoverwrites⟩ | ⟨_, hfault⟩⟩ :=
    hlaw _ m _ _ 1 _ m.state (occurs_of_getElem? hmoment) hevent rfl
  · have hbound := hoverwrites.bound
    simp only [State.Targets, hdistance, Store.ancestor?, Option.some.injEq] at htarget
    subst htarget
    rw [Store.Binds, hunbound] at hbound
    cases hbound
  · rw [hrun] at hfault
    cases hfault

end Session

end ScopedScript
