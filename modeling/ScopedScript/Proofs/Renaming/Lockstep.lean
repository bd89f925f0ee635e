import ScopedScript.Proofs.Eval.Invariant
import ScopedScript.Proofs.Renaming.SideBySide
import ScopedScript.Proofs.Syntax.Shape

/-!
# Operations in lockstep

From twin states, an operation and its twin end alike: both well, with results that are twins, or
both with the same fault. The one exception are faults about a name that is missing where it is
looked up, for there the names differ. No run of a program meets those.
-/

namespace ScopedScript

/-- How a run and that of a twin end alike. -/
inductive Outcome.Twin {ρ : Renaming} {α : Type} (p : TwinStates ρ)
    (Q : TwinStates ρ → α → α → Prop) : Outcome Halt State α → Outcome Halt State α → Prop where
  | ok {q : TwinStates ρ} {a a' : α} : p.Advances q → Q q a a' →
      Outcome.Twin p Q (.ok a q.state) (.ok a' q.other)
  | fault {q : TwinStates ρ} {e e' : Halt} : (e.Lawful q.state → e' = e) →
      Outcome.Twin p Q (.fault e q.state) (.fault e' q.other)
  | exhausted : Outcome.Twin p Q .exhausted .exhausted

namespace Outcome.Twin

variable {ρ : Renaming} {α : Type} {p q : TwinStates ρ} {o o' : Outcome Halt State α}
variable {Q Q' : TwinStates ρ → α → α → Prop}

/-- What starts in later states ends in states that are later still. -/
theorem of_advances (hq : p.Advances q) (h : Outcome.Twin q Q o o') : Outcome.Twin p Q o o' := by
  cases h with
  | ok hr hend => exact .ok (hq.trans hr) hend
  | fault he => exact .fault he
  | exhausted => exact .exhausted

end Outcome.Twin

theorem TwinStates.Marked.later {ρ : Renaming} {p q : TwinStates ρ} {marks : Marks}
    (h : p.Marked p.state.current marks) (hgrows : p.state.Grows q.state) (hq : p.Advances q) :
    q.Marked q.state.current marks := by
  rw [hgrows.current_eq]
  exact State.Marked.mono h hq

namespace Eval

variable {ρ : Renaming} {α β : Type} {p q : TwinStates ρ} {m m' : Eval α} {f f' : α → Eval β}
variable {a a' : α} {Q Q' : TwinStates ρ → α → α → Prop} {P : TwinStates ρ → β → β → Prop}

/-- From twin states, two computations end alike. -/
def Lockstep (p : TwinStates ρ) (m m' : Eval α) (Q : TwinStates ρ → α → α → Prop) : Prop :=
  Outcome.Twin p Q (m p.state) (m' p.other)

namespace Lockstep

theorem of_ok {b : α} (h : m p.state = .ok a q.state) (h' : m' p.other = .ok b q.other)
    (hq : p.Advances q) (hQ : Q q a b) : Lockstep p m m' Q := by
  unfold Lockstep
  rw [h, h']
  exact .ok hq hQ

theorem pure (hQ : Q p a a') : Lockstep p (Pure.pure a) (Pure.pure a') Q :=
  .of_ok rfl rfl (.refl _ _) hQ

theorem fail {fault : RuntimeFault} {line : Nat} :
    Lockstep p (Eval.fail fault line) (Eval.fail fault line) Q :=
  Outcome.Twin.fault fun _ => rfl

/-- Faults that no run of a program meets may differ. -/
theorem fail_of_not {fault fault' : RuntimeFault} {line line' : Nat}
    (h : ¬(Halt.runtime fault line).Lawful p.state) :
    Lockstep p (Eval.fail fault line) (Eval.fail fault' line') Q :=
  Outcome.Twin.fault fun hlawful => (h hlawful).elim

theorem outOfFuel : Lockstep p (Run.outOfFuel : Eval α) Run.outOfFuel Q := Outcome.Twin.exhausted

theorem bind (h : Lockstep p m m' Q) (hkeeps : KeepsPlace m)
    (hf : ∀ a a' q, p.state.Grows q.state → p.Advances q → Q q a a' →
      Lockstep q (f a) (f' a') P) : Lockstep p (m >>= f) (m' >>= f') P := by
  have hgrows := hkeeps p.state
  unfold Lockstep Run.Ensures at *
  rw [Run.bind_apply, Run.bind_apply]
  generalize m p.state = o at h hgrows
  generalize m' p.other = o' at h
  cases h with
  | ok hq hQ => exact .of_advances hq (hf _ _ _ hgrows hq hQ)
  | fault he => exact .fault he
  | exhausted => exact .exhausted

theorem bind_of_ok {b : α} (h : m p.state = .ok a q.state) (h' : m' p.other = .ok b q.other)
    (hq : p.Advances q) (hf : Lockstep q (f a) (f' b) P) :
    Lockstep p (m >>= f) (m' >>= f') P := by
  unfold Lockstep at *
  rw [Run.bind_of_ok h, Run.bind_of_ok h']
  exact .of_advances hq hf

theorem map {g g' : α → β} (h : Lockstep p m m' Q) (hkeeps : KeepsPlace m)
    (hg : ∀ a a' q, Q q a a' → P q (g a) (g' a')) : Lockstep p (g <$> m) (g' <$> m') P := by
  rw [map_eq_pure_bind, map_eq_pure_bind]
  exact h.bind hkeeps fun a a' q _ _ hQ => .pure (hg a a' q hQ)

/-- What ends alike in another scope does so when it is executed there. -/
theorem within {scope : EnvId} (h : Lockstep (p.inScope scope) m m' Q)
    (hQ : ∀ q a a', Q q a a' → Q' (q.inScope p.state.current) a a') :
    Lockstep p (Eval.within scope m) (Eval.within scope m') Q' := by
  unfold Lockstep Eval.within
  change Outcome.Twin _ Q (m { p.state with current := scope })
    (m' { p.other with current := scope }) at h
  generalize m { p.state with current := scope } = o at h ⊢
  generalize m' { p.other with current := scope } = o' at h ⊢
  cases h with
  | @ok q a a' hq hend =>
      have hback : p.Advances (q.inScope p.state.current) :=
        ⟨hq.globals_eq, hq.store_extends, hq.agrees⟩
      exact .ok hback (hQ q a a' hend)
  | @fault q e e' he => exact Outcome.Twin.fault (q := q.inScope p.state.current) he
  | exhausted => exact .exhausted

end Lockstep

section Steps

variable {e : EnvId} {x x' : String} {v v' : Value} {c c' : Class} {o : ObjectId} {text : String}

/-- The scope that is added may be marked. -/
theorem lockstep_newEnv (b : Bool) : Lockstep p (newEnv e) (newEnv e) fun q scope scope' =>
    q = p.addEnv (some e) b ∧ scope = p.state.store.nextEnv ∧ scope' = p.state.store.nextEnv :=
  .of_ok (q := p.addEnv (some e) b) rfl rfl (p.advances_addEnv _ b) ⟨rfl, rfl, p.nextEnv_eq⟩

theorem lockstep_defineIn (hx : ρ.exchange (p.marking e) x = x') (hv : p.Related v v') :
    Lockstep p (onStore fun store => store.define e x v) (onStore fun store => store.define e x' v')
      fun _ _ _ => True :=
  .of_ok (q := p.define e hx hv) rfl rfl (p.advances_define e x v) trivial

theorem lockstep_define (hx : ρ.exchange (p.marking p.state.current) x = x')
    (hv : p.Related v v') : Lockstep p (define x v) (define x' v') fun _ _ _ => True :=
  .of_ok (q := p.define p.state.current hx hv) rfl rfl (p.advances_define _ x v) trivial

/-- Parameters are bound, exchanged in the second run if the scope of the call is marked. -/
theorem lockstep_defineAll {b : Bool} {names : List Name} {values values' : List Value}
    (he : p.marking e = b) (h : List.Forall₂ p.Related values values') :
    Lockstep p (onStore fun store => store.defineAll e (names.map Name.text) values)
      (onStore fun store => store.defineAll e ((names.map (ρ.twinName b)).map Name.text) values')
      fun _ _ _ => True := by
  obtain ⟨q, hq, _, hstate, hother⟩ := p.exists_defineAll names he h
  refine .of_ok (q := q) (a := ()) (b := ()) ?_ ?_ hq trivial
  · rw [hstate]
    rfl
  · rw [hother]
    rfl

theorem lockstep_newObject (hc : Class.Twin ρ p.state p.marking c c') :
    Lockstep p (newObject c) (newObject c') fun q o o' => q.Related (.object o) (.object o') := by
  have hq : p.Advances p.addObject := ⟨rfl, .addObject, fun _ => rfl⟩
  refine .of_ok (q := p.addObject) rfl rfl hq ?_
  rw [show p.other.store.nextObject = p.state.store.nextObject from p.nextObject_eq]
  exact .object (hc.mono hq)

theorem lockstep_setField (hv : p.Related v v') :
    Lockstep p (onStore fun store => store.setField o x v)
      (onStore fun store => store.setField o x v') fun _ _ _ => True :=
  .of_ok (q := p.setField o x hv) rfl rfl ⟨rfl, .setField, fun _ => rfl⟩ trivial

theorem lockstep_freshIdentity :
    Lockstep p freshIdentity freshIdentity fun _ id id' => id' = id :=
  .of_ok (q := p.atSame { p.state with nextIdentity := p.state.nextIdentity + 1 } rfl rfl rfl rfl
    rfl) rfl rfl ⟨rfl, .refl _, fun _ => rfl⟩ rfl

theorem lockstep_emit : Lockstep p (emit text) (emit text) fun _ _ _ => True := by
  unfold Lockstep emit
  rw [show p.other.sink = p.state.sink from rfl]
  cases p.state.sink.write (text ++ "\n") with
  | mk refusal sink =>
      let q := p.atSame { p.state with sink := sink } rfl rfl rfl rfl rfl
      cases refusal with
      | none => exact Outcome.Twin.ok (q := q) ⟨rfl, .refl _, fun _ => rfl⟩ trivial
      | some reason => exact Outcome.Twin.fault (q := q) fun _ => rfl

theorem lockstep_checkArity {expected expected' got got' line : Nat}
    (hexpected : expected' = expected) (hgot : got' = got) :
    Lockstep p (checkArity expected got line) (checkArity expected' got' line)
      fun _ _ _ => True := by
  subst hexpected hgot
  unfold checkArity
  by_cases h : got' = expected'
  · rw [if_pos h]
    exact .pure trivial
  · rw [if_neg h]
    exact .fail

/-- The clock does not look at what it is called with. -/
theorem lockstep_askHost {f : Native} {arguments arguments' : List Value} {line : Nat} :
    Lockstep p (askHost f arguments line) (askHost f arguments' line) TwinStates.Related := by
  obtain ⟨readings, hhost⟩ := p.grounded.clocked
  let q := p.atSame { p.state with nativeCalls := p.state.nativeCalls + 1 } rfl rfl rfl rfl rfl
  have hq : p.Advances q := ⟨rfl, .refl _, fun _ => rfl⟩
  refine .bind_of_ok (Run.get_apply _) (Run.get_apply _) (.refl _ _) ?_
  refine .bind_of_ok (q := q) rfl rfl hq ?_
  rw [hhost, show p.other.host = .ofClock readings from hhost]
  exact .pure .number

theorem lockstep_ofOperation {result result' : Except RuntimeFault Value} {line : Nat}
    (hresult : result' = result) (htwin : ∀ v, result = .ok v → p.Related v v) :
    Lockstep p (ofOperation result line) (ofOperation result' line) TwinStates.Related := by
  subst hresult
  cases result' with
  | ok v => exact .pure (htwin v rfl)
  | error fault => exact .fail

end Steps

section Names

variable {marks : Marks} {e : EnvId} {d : Nat} {name name' : Name} {ref : Reference}

/-- Reading names that are exchanged for each other in the scope where they are looked up. -/
theorem lockstep_readAt (hname : ∀ target, p.state.store.ancestor? e d = some target →
      ρ.exchange (p.marking target) name.text = name'.text) :
    Lockstep p (readAt e d name) (readAt e d name') TwinStates.Related := by
  refine .bind_of_ok (Run.get_apply _) (Run.get_apply _) (.refl _ _) ?_
  have hother : p.other.store.ancestor? e d = p.state.store.ancestor? e d := p.ancestor?_eq
  unfold Store.lookupAt
  rw [hother]
  -- where the first run finds no scope or no name, it is no lawful one, and the second may differ
  cases htarget : p.state.store.ancestor? e d with
  | none => exact .fail_of_not not_false
  | some target =>
      have hbinding := p.binding target name.text
      rw [hname target htarget] at hbinding
      cases hv : p.state.store.binding? target name.text with
      | none =>
          have hv' : p.other.store.binding? target name'.text = none := hbinding.eq_none hv
          simp only [hv, hv']
          exact .fail_of_not not_false
      | some v =>
          obtain ⟨v', hv', hrelated⟩ := hbinding.exists_of_eq_some hv
          have hv' : p.other.store.binding? target name'.text = some v' := hv'
          simp only [hv, hv']
          exact .pure hrelated

/-- A name that is never exchanged is read alike. -/
theorem lockstep_readAt_of_ne (hold : name.text ≠ ρ.old) (hnew : name.text ≠ ρ.new) :
    Lockstep p (readAt e d name) (readAt e d name) TwinStates.Related :=
  lockstep_readAt fun _ _ => Renaming.exchange_of_ne hold hnew

theorem lockstep_read (hmarked : p.Marked p.state.current marks) :
    Lockstep p (read ref.id ref.name)
      (read (ρ.twinReference marks ref).id (ρ.twinReference marks ref).name)
      TwinStates.Related := by
  refine .bind_of_ok (Run.get_apply _) (Run.get_apply _) (.refl _ _) ?_
  have hdistance : p.state.distances[ref.id]? = ρ.distances[ref.id]? := by rw [p.distances_eq]
  have hdistance' : p.other.distances[ref.id]? = ρ.distances[ref.id]? := hdistance
  unfold Renaming.twinReference
  cases hd : ρ.distances[ref.id]? with
  | some d =>
      simp only [hdistance, hdistance', hd]
      refine lockstep_readAt fun target htarget => ?_
      rw [p.marking_ancestor hmarked htarget]
      rfl
  | none =>
      -- a reference without a distance means a global variable, whose name is never exchanged
      simp only [hdistance, hdistance', hd]
      have houtermost : p.store.enclosing? p.state.globals = none := by
        rw [p.enclosing_eq, p.grounded.outermost]
      have hother : p.other.store.lookup? p.other.globals ref.name.text =
          p.store.binding? p.state.globals ref.name.text := Store.lookup?_of_outermost houtermost
      rw [Store.lookup?_of_outermost p.grounded.outermost, hother]
      cases hv : p.state.store.binding? p.state.globals ref.name.text with
      | none =>
          rw [p.global.eq_none hv]
          exact .fail
      | some v =>
          obtain ⟨v', hv', hrelated⟩ := p.global.exists_of_eq_some hv
          rw [hv']
          exact .pure hrelated

/-- An assignment changes the same scope, under the name that it has there. -/
theorem lockstep_assignmentTarget (hmarked : p.Marked p.state.current marks) :
    Lockstep p (assignmentTarget ref) (assignmentTarget (ρ.twinReference marks ref))
      fun q target target' => q = p ∧ target' = target ∧
        ρ.exchange (p.marking target) ref.name.text = (ρ.twinReference marks ref).name.text := by
  refine .bind_of_ok (Run.get_apply _) (Run.get_apply _) (.refl _ _) ?_
  have hdistance : p.state.distances[ref.id]? = ρ.distances[ref.id]? := by rw [p.distances_eq]
  have hdistance' : p.other.distances[ref.id]? = ρ.distances[ref.id]? := hdistance
  unfold Renaming.twinReference
  cases hd : ρ.distances[ref.id]? with
  | some d =>
      have hother : p.other.store.ancestor? p.other.current d =
          p.state.store.ancestor? p.state.current d := p.ancestor?_eq
      simp only [hdistance, hdistance', hd, hother]
      cases htarget : p.state.store.ancestor? p.state.current d with
      | none => exact .fail_of_not not_false
      | some target =>
          refine .pure ⟨rfl, rfl, ?_⟩
          rw [p.marking_ancestor hmarked htarget]
          rfl
  | none =>
      simp only [hdistance, hdistance', hd]
      have houtermost : p.store.enclosing? p.state.globals = none := by
        rw [p.enclosing_eq, p.grounded.outermost]
      have hother : p.other.store.binder? p.other.globals ref.name.text =
          if (p.store.binding? p.state.globals ref.name.text).isSome then some p.state.globals
          else none := Store.binder?_of_outermost houtermost
      rw [Store.binder?_of_outermost p.grounded.outermost, hother]
      cases hv : p.state.store.binding? p.state.globals ref.name.text with
      | none =>
          rw [p.global.eq_none hv]
          exact .fail
      | some v =>
          obtain ⟨v', hv', _⟩ := p.global.exists_of_eq_some hv
          rw [hv']
          refine .pure ⟨rfl, rfl, ?_⟩
          rw [p.globals_unmarked]
          rfl

theorem lockstep_assign {v v' : Value} (hmarked : p.Marked p.state.current marks)
    (hv : p.Related v v') :
    Lockstep p (assign ref v) (assign (ρ.twinReference marks ref) v') fun _ _ _ => True := by
  refine (lockstep_assignmentTarget hmarked).bind (keeps_assignmentTarget ref) ?_
  rintro _ _ _ _ _ ⟨rfl, rfl, hname⟩
  exact lockstep_defineIn hname hv

end Names

section Methods

variable {marks : Marks} {method method' : Function} {o o' : Object} {name : Name}

/-- Methods that are twins become functions that are twins when they are bound to objects. -/
theorem lockstep_bindMethod (hmethod : Function.Twin ρ p.state p.marking [false] method method')
    (ho : p.Related (.object o) (.object o')) :
    Lockstep p (bindMethod method o) (bindMethod method' o') fun q f f' =>
      Function.Twin ρ q.state q.marking [] f f' := by
  cases hmethod with
  | @mk _ _ _ closure _ marks hmarked hd =>
      refine (lockstep_newEnv false).bind (keeps_newEnv _) ?_
      rintro _ _ _ _ h₁ ⟨rfl, rfl, rfl⟩
      refine (lockstep_defineIn p.exchange_addEnv (ho.mono h₁)).bind
        (keeps_onStore fun _ => .define) ?_
      intro _ _ q₂ _ h₂ _
      refine lockstep_freshIdentity.bind keeps_freshIdentity ?_
      rintro _ _ q₃ _ h₃ rfl
      exact .pure (.mk (((p.marked_addEnv hmarked false).mono h₂).mono h₃) hd)

theorem lockstep_property (ho : p.Related (.object o) (.object o')) :
    Lockstep p (property o name) (property o' name) TwinStates.Related := by
  refine .bind_of_ok (Run.get_apply _) (Run.get_apply _) (.refl _ _) ?_
  cases ho with
  | @object id c c' hc =>
      have hfield : Option.Rel p.Related (p.state.store.field? id name.text)
        (p.other.store.field? id name.text) := p.field id name.text
      cases hv : p.state.store.field? id name.text with
      | some v =>
          obtain ⟨v', hv', hrelated⟩ := hfield.exists_of_eq_some hv
          simp only [hv']
          exact .pure hrelated
      | none =>
          simp only [hfield.eq_none hv]
          cases hmethod : c.findMethod? name.text with
          | none =>
              simp only [(hc.methods name.text).eq_none hmethod]
              exact .fail
          | some method =>
              obtain ⟨method', hmethod', htwin⟩ :=
                (hc.methods name.text).exists_of_eq_some hmethod
              simp only [hmethod']
              refine (lockstep_bindMethod htwin (.object hc)).bind (keeps_bindMethod _ _) ?_
              intro f f' q _ _ hf
              exact .pure (.function hf)

theorem lockstep_inheritedMethod {id : NodeId} {line : Nat} (hold : Ordinary ρ.old)
    (hnew : Ordinary ρ.new) :
    Lockstep p (inheritedMethod id line name) (inheritedMethod id line name)
      TwinStates.Related := by
  refine .bind_of_ok (Run.get_apply _) (Run.get_apply _) (.refl _ _) ?_
  rw [show p.other.distances = p.state.distances from rfl]
  cases p.state.distances[id]? with
  | none => exact .fail_of_not not_false
  | some distance =>
      -- both words that are looked up are reserved, so neither is exchanged
      refine (lockstep_readAt_of_ne hold.2.symm hnew.2.symm).bind (keeps_readAt _ _ _) ?_
      intro v v' p₁ hgrows₁ h₁ hv
      cases hv with
      | @cls superclass superclass' hc =>
          cases distance with
          | zero => exact .fail
          | succ inner =>
              refine (lockstep_readAt_of_ne hold.1.symm hnew.1.symm).bind
                (keeps_readAt _ _ _) ?_
              intro w w' p₂ _ h₂ hw
              cases hw with
              | @object o c c' ho =>
                  have hc₂ := (hc.mono h₂).methods name.text
                  cases hmethod : superclass.findMethod? name.text with
                  | none =>
                      simp only [hc₂.eq_none hmethod]
                      exact .fail
                  | some method =>
                      obtain ⟨method', hmethod', htwin⟩ := hc₂.exists_of_eq_some hmethod
                      simp only [hmethod']
                      refine (lockstep_bindMethod htwin (.object ho)).bind
                        (keeps_bindMethod _ _) ?_
                      intro f f' q _ _ hf
                      exact .pure (.function hf)
              | _ => exact .fail
      | _ => exact .fail

end Methods

section Classes

variable {marks : Marks} {ref : Reference} {name : Name} {c c' : Class}
variable {ds ds' : List FunctionDecl}

theorem lockstep_superclass (hmarked : p.Marked p.state.current marks) :
    Lockstep p (superclass ref) (superclass (ρ.twinReference marks ref)) fun q c c' =>
      Class.Twin ρ q.state q.marking c c' := by
  refine (lockstep_read hmarked).bind (keeps_read _ _) ?_
  intro v v' q _ _ hv
  cases hv with
  | cls hc => exact .pure hc
  | _ =>
      simp only [Renaming.twinReference_line]
      exact .fail

/-- The scopes in which the methods of a class are declared are not marked. -/
def methodMarks (parent : Option Class) (marks : Marks) : Marks :=
  match parent with
  | none => marks
  | some _ => false :: marks

theorem lockstep_methodScope {parent parent' : Option Class}
    (hmarked : p.Marked p.state.current marks)
    (hparent : Option.Rel (Class.Twin ρ p.state p.marking) parent parent') :
    Lockstep p (methodScope parent) (methodScope parent') fun q scope scope' =>
      scope' = scope ∧ q.Marked scope (methodMarks parent marks) := by
  refine .bind_of_ok (q := p) (b := p.state.current) rfl rfl (.refl _ _) ?_
  cases hparent with
  | none => exact .pure ⟨rfl, hmarked⟩
  | some hc =>
      refine (lockstep_newEnv false).bind (keeps_newEnv _) ?_
      rintro _ _ _ _ h₁ ⟨rfl, rfl, rfl⟩
      refine (lockstep_defineIn p.exchange_addEnv (.cls (hc.mono h₁))).bind
        (keeps_onStore fun _ => .define) ?_
      intro _ _ q₂ _ h₂ _
      exact .pure ⟨rfl, (p.marked_addEnv hmarked false).mono h₂⟩

theorem lockstep_makeMethods {closure : EnvId} (hmarked : p.Marked closure marks)
    (hds : FunctionDecl.TwinAll ρ (false :: marks) ds ds') :
    Lockstep p (makeMethods closure ds) (makeMethods closure ds') fun q methods methods' =>
      Methods.Twin ρ q.state q.marking methods.get? methods'.get? := by
  -- the methods made so far are twins, whatever they are
  have hgo {p : TwinStates ρ} (made made' : Bindings Function) (hmarked : p.Marked closure marks)
      (hmade : Methods.Twin ρ p.state p.marking made.get? made'.get?) :
      Lockstep p (makeMethods.go closure made ds) (makeMethods.go closure made' ds')
        fun q methods methods' =>
          Methods.Twin ρ q.state q.marking methods.get? methods'.get? := by
    induction ds generalizing p made made' ds' with
    | nil =>
        cases hds
        exact .pure hmade
    | cons d ds ih =>
        cases hds with
        | @cons _ _ d' _ _ hd hds =>
            refine lockstep_freshIdentity.bind keeps_freshIdentity ?_
            rintro id _ q _ hq rfl
            refine ih hds _ _ (hmarked.mono hq) fun x => ?_
            rw [hd.name_eq, Bindings.get?_insert, Bindings.get?_insert]
            by_cases hx : d.name.text = x
            · rw [if_pos hx, if_pos hx]
              exact .some (.mk (hmarked.mono hq) hd)
            · rw [if_neg hx, if_neg hx]
              exact (hmade x).imp fun _ _ hf => hf.mono hq
  exact hgo .empty .empty hmarked fun _ => .none

/-- Declaring a class whose superclass is known. -/
theorem lockstep_declareMethods {parent parent' : Option Class}
    (hmarked : p.Marked p.state.current marks)
    (hname : ρ.exchange (marks.at 0) name.text = name.text)
    (hparent : Option.Rel (Class.Twin ρ p.state p.marking) parent parent')
    (hds : FunctionDecl.TwinAll ρ (false :: methodMarks parent marks) ds ds') :
    Lockstep p
      (do
        define name.text .nil
        let closure ← methodScope parent
        let methods ← makeMethods closure ds
        let id ← freshIdentity
        define name.text (.cls (.extending ⟨id, name.text, methods⟩ parent)))
      (do
        define name.text .nil
        let closure ← methodScope parent'
        let methods ← makeMethods closure ds'
        let id ← freshIdentity
        define name.text (.cls (.extending ⟨id, name.text, methods⟩ parent')))
      fun _ _ _ => True := by
  -- the name of the class is bound twice, in states that may differ by the making of methods
  have hdefined {q : TwinStates ρ} (hq : q.Marked q.state.current marks) :
      ρ.exchange (q.marking q.state.current) name.text = name.text := by
    rw [q.marking_of_marked hq]
    exact hname
  refine (lockstep_define (hdefined hmarked) .nil).bind (keeps_define _ _) ?_
  intro _ _ p₁ hgrows₁ h₁ _
  have hmarked₁ := hmarked.later hgrows₁ h₁
  have hparent₁ := hparent.imp fun _ _ (hc : Class.Twin ρ _ _ _ _) => hc.mono h₁
  refine (lockstep_methodScope hmarked₁ hparent₁).bind (keeps_methodScope _) ?_
  rintro closure _ p₂ hgrows₂ h₂ ⟨rfl, hclosure⟩
  refine (lockstep_makeMethods hclosure hds).bind (keeps_makeMethods _ _) ?_
  intro methods methods' p₃ hgrows₃ h₃ hmethods
  refine lockstep_freshIdentity.bind keeps_freshIdentity ?_
  rintro _ id p₄ hgrows₄ h₄ rfl
  have hmarked₄ := ((hmarked₁.later hgrows₂ h₂).later hgrows₃ h₃).later hgrows₄ h₄
  have hparent₄ := hparent₁.imp fun _ _ (hc : Class.Twin ρ _ _ _ _) =>
    hc.mono ((h₂.trans h₃).trans h₄)
  exact lockstep_define (hdefined hmarked₄) (.cls (.extending (hmethods.mono h₄) hparent₄))

theorem lockstep_plainClass (hmarked : p.Marked p.state.current marks)
    (hname : ρ.exchange (marks.at 0) name.text = name.text)
    (hds : FunctionDecl.TwinAll ρ (false :: marks) ds ds') :
    Lockstep p (declareClass name none ds) (declareClass name none ds') fun _ _ _ => True :=
  lockstep_declareMethods hmarked hname .none hds

theorem lockstep_subclass (hmarked : p.Marked p.state.current marks)
    (hname : ρ.exchange (marks.at 0) name.text = name.text)
    (hds : FunctionDecl.TwinAll ρ (false :: false :: marks) ds ds') :
    Lockstep p (declareClass name (some ref) ds)
      (declareClass name (some (ρ.twinReference marks ref)) ds') fun _ _ _ => True := by
  have hparent : Lockstep p (some <$> superclass ref)
      (some <$> superclass (ρ.twinReference marks ref)) fun q parent parent' =>
        ∃ c c', parent = some c ∧ parent' = some c' ∧ Class.Twin ρ q.state q.marking c c' :=
    (lockstep_superclass hmarked).map (keeps_superclass ref) fun c c' _ hc =>
      ⟨c, c', rfl, rfl, hc⟩
  refine hparent.bind (keeps_superclass ref).map ?_
  rintro _ _ q hgrows hq ⟨c, c', rfl, rfl, hc⟩
  exact lockstep_declareMethods (hmarked.later hgrows hq) hname (.some hc) hds

end Classes

end Eval

end ScopedScript
