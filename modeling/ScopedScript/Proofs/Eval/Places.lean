import ScopedScript.Proofs.Eval.Moments
import ScopedScript.Proofs.Eval.Soundness
import ScopedScript.Syntax.Occurrences

/-!
# The places of a run

Wherever a run evaluates an expression or executes a statement, the chain of the current scope
matches the scopes around it, and what is found for its references is known. A name that scopes have
only begun to declare there is that of a variable whose initial value is being worked out: its
declaration is on record, executed in the same scope.
-/

namespace ScopedScript

/-- The names that scopes have only begun to declare are those of variables whose execution is on
record, in a given scope and with some references in the initial value. -/
def Pending (h : List Moment) (current : EnvId) (Γ : Scopes) (os : List Occurrence) : Prop :=
  ∀ x, ¬Γ.Readable x → ∃ m ∈ h, ∃ name initial, m.event = .executes (.var name (some initial)) ∧
    m.state.current = current ∧ name.text = x ∧ os ⊆ initial.occurrences

/-- What is known of the place at which something happens, after what is on record: of that of an
expression which is evaluated there, and of that of a statement which is executed. -/
def Event.Placed (n : NodeId) (h : List Moment) (s : State) : Event → Prop
  | .evaluates e => ∃ setting Γ, s.SoundAt n setting Γ ∧
      Fits n s.distances (e.Obeys setting Γ) (e.records Γ) ∧ Pending h s.current Γ e.occurrences
  | .executes stmt => ∃ setting Γ, s.SoundAt n setting Γ ∧ Γ.Open ∧ stmt.Formed ∧
      Fits n s.distances (stmt.Obeys setting Γ) (stmt.records Γ)
  | _ => True

/-- Each of some moments goes on record at a place of which this is known, when the ones before it
have gone on record after `h`. -/
def Placed (n : NodeId) : List Moment → List Moment → Prop
  | _, [] => True
  | h, m :: ms => m.event.Placed n h m.state ∧ Placed n (h ++ [m]) ms

theorem Placed.append {n : NodeId} {h ms ms' : List Moment} :
    Placed n h (ms ++ ms') ↔ Placed n h ms ∧ Placed n (h ++ ms) ms' := by
  induction ms generalizing h with
  | nil => simp [Placed]
  | cons m ms ih => simp [Placed, ih, and_assoc]

theorem Placed.of_split {n : NodeId} {h ms front back : List Moment} {m : Moment}
    (hms : Placed n h ms) (hsplit : ms = front ++ m :: back) :
    m.event.Placed n (h ++ front) m.state := by
  rw [hsplit, Placed.append] at hms
  exact hms.2.1

namespace Pending

variable {h h' : List Moment} {current : EnvId} {Γ : Scopes} {os os' : List Occurrence}

theorem mono (hp : Pending h current Γ os) (hsub : h ⊆ h') (hos : os' ⊆ os) :
    Pending h' current Γ os' := by
  intro x hx
  obtain ⟨m, hm, name, initial, hevent, hcurrent, hname, hinitial⟩ := hp x hx
  exact ⟨m, hsub hm, name, initial, hevent, hcurrent, hname, List.Subset.trans hos hinitial⟩

/-- At the beginning of a statement no declaration is under way. -/
theorem of_open (hopen : Γ.Open) : Pending h current Γ os := by
  intro x hx
  cases Γ with
  | nil => exact (hx trivial).elim
  | cons scope outer => exact (hx (hopen.settled scope List.mem_cons_self x)).elim

/-- The initial value of a variable is worked out while the variable is being declared. -/
theorem of_declaring (hopen : Γ.Open) {s : State} {name : Name} {initial : Expr}
    (hm : ⟨.executes (.var name (some initial)), s⟩ ∈ h) :
    Pending h s.current (Γ.declaring name.text) initial.occurrences := by
  intro x hx
  refine ⟨_, hm, name, initial, rfl, rfl, ?_, fun _ ho => ho⟩
  cases Γ with
  | nil => exact (hx trivial).elim
  | cons scope outer =>
      refine Decidable.of_not_not fun hne => hx ?_
      change List.lookup x ((name.text, false) :: scope) ≠ some false
      rw [Scope.lookup_cons, if_neg (Ne.symm hne)]
      exact hopen.settled scope List.mem_cons_self x

end Pending

namespace Eval

variable {α : Type} {n : NodeId} {h : List Moment} {s : State} {moments : Moments} {m : Eval α}
variable {rest : α → Moments} {Q : α → State → Prop} {setting : Setting} {Γ : Scopes}

theorem placed_mark {event : Event} (hevent : event.Placed n h s)
    (hrest : Placed n (h ++ [⟨event, s⟩]) (moments s)) :
    Placed n h ((moments.mark event) s) := ⟨hevent, hrest⟩

/-- What happens in a computation that is safe, and after it. -/
theorem placed_andThen (hmoments : Placed n h (moments s)) (hsafe : Safe n s m Q)
    (hkeeps : KeepsPlace m)
    (hrest : ∀ h' a s', h ⊆ h' → s.Grows s' → s'.Sound n → Q a s' → Placed n h' (rest a s')) :
    Placed n h ((moments.andThen m rest) s) := by
  refine Placed.append.mpr ⟨hmoments, ?_⟩
  cases hrun : m s with
  | ok a s' =>
      obtain ⟨hs', hQ⟩ := hsafe.ok hrun
      exact hrest _ a s' (List.subset_append_left _ _) ((hkeeps s).ok hrun) hs' hQ
  | fault _ _ | exhausted => trivial

theorem placed_after (hrest : ∀ a s', m s = .ok a s' → Placed n h (rest a s')) :
    Placed n h ((Moments.after m rest) s) := by
  change Placed n h ([] ++ _)
  cases hrun : m s with
  | ok a s' => exact hrest a s' hrun
  | fault _ _ | exhausted => trivial

theorem placed_after_safe (hsafe : Safe n s m Q) (hkeeps : KeepsPlace m)
    (hrest : ∀ a s', s.Grows s' → s'.Sound n → Q a s' → Placed n h (rest a s')) :
    Placed n h ((Moments.after m rest) s) := by
  refine placed_after fun a s' hrun => ?_
  obtain ⟨hs', hQ⟩ := hsafe.ok hrun
  exact hrest a s' ((hkeeps s).ok hrun) hs' hQ

theorem placed_after_of_ok {a : α} {t : State} (hm : m s = .ok a t)
    (hrest : Placed n h (rest a t)) : Placed n h ((Moments.after m rest) s) := by
  refine placed_after fun a' t' hrun => ?_
  rw [hm] at hrun
  cases hrun
  exact hrest

/-! ### Where nothing is evaluated -/

theorem placed_bindMoments {method : Function} {o : Object} :
    Placed n h (bindMoments method o (fun _ => .none) s) :=
  placed_after fun _ _ _ => placed_mark trivial trivial

theorem placed_propertyMoments (o : Object) (name : Name) :
    Placed n h (propertyMoments o name s) := by
  unfold propertyMoments
  split
  · exact placed_bindMoments
  · trivial

theorem placed_inheritedMoments (id : NodeId) (method : Name) :
    Placed n h (inheritedMoments id method s) := by
  unfold inheritedMoments
  split
  · exact placed_bindMoments
  · trivial

theorem placed_classMoments (d : ClassDeclaration) : Placed n h (classMoments d s) :=
  placed_after fun _ _ _ => placed_after fun _ _ _ => placed_after fun _ _ _ =>
    placed_mark trivial trivial

theorem placed_functionMoments (d : FunctionDecl) : Placed n h (functionMoments d s) :=
  placed_after fun _ _ _ => placed_after fun _ _ _ => placed_mark trivial trivial

/-! ### Runs -/

/-- With a given fuel, expressions are evaluated at places of which this is known. -/
structure PlacedWith (n : NodeId) (fuel : Nat) : Prop where
  eval {h : List Moment} {s : State} {setting : Setting} {Γ : Scopes} (e : Expr) :
    s.SoundAt n setting Γ → Fits n s.distances (e.Obeys setting Γ) (e.records Γ) →
    Pending h s.current Γ e.occurrences → Placed n h (evalMoments fuel e s)
  evalAll {h : List Moment} {s : State} {setting : Setting} {Γ : Scopes} (es : List Expr) :
    s.SoundAt n setting Γ →
    Fits n s.distances (Expr.ObeysAll setting Γ es) (Expr.recordsAll Γ es) →
    Pending h s.current Γ (Expr.occurrencesAll es) → Placed n h (evalAllMoments fuel es s)
  call {h : List Moment} {s : State} (callee : Value) (arguments : List Value) (line : Nat) :
    s.Sound n → callee.Sound n s → (∀ v ∈ arguments, v.Sound n s) →
    Placed n h (callMoments fuel callee arguments line s)
  invoke {h : List Moment} {s : State} (f : Function) (arguments : List Value) :
    s.Sound n → f.Sound n s → (∀ v ∈ arguments, v.Sound n s) → arguments.length = f.arity →
    Placed n h (invokeMoments fuel f arguments s)
  exec {h : List Moment} {s : State} {setting : Setting} {Γ : Scopes} (stmt : Stmt) :
    s.SoundAt n setting Γ → Γ.Open → stmt.Formed →
    Fits n s.distances (stmt.Obeys setting Γ) (stmt.records Γ) →
    Placed n h (execMoments fuel stmt s)
  execAll {h : List Moment} {s : State} {setting : Setting} {Γ : Scopes} (stmts : List Stmt) :
    s.SoundAt n setting Γ → Γ.Open → Stmt.FormedAll stmts →
    Fits n s.distances (Stmt.ObeysAll setting Γ stmts) (Stmt.recordsAll Γ stmts) →
    Placed n h (execAllMoments fuel stmts s)

namespace PlacedWith

variable {fuel : Nat}

theorem eval_succ (ih : PlacedWith n fuel) (e : Expr) (hs : s.SoundAt n setting Γ)
    (he : Fits n s.distances (e.Obeys setting Γ) (e.records Γ))
    (hp : Pending h s.current Γ e.occurrences) : Placed n h (evalMoments (fuel + 1) e s) := by
  have hsafe := safeWith n fuel
  have hkeeps := keepsPlaceWith fuel
  refine placed_mark ⟨setting, Γ, hs, he, hp⟩ ?_
  -- What is pending stays so: nothing is taken off the record, and the scope is the same again.
  have hlater {h' : List Moment} {s' : State} {os : List Occurrence}
      (hsub : h ++ [⟨.evaluates e, s⟩] ⊆ h') (hgrows : s.Grows s') (hos : os ⊆ e.occurrences) :
      Pending h' s'.current Γ os := by
    rw [hgrows.current_eq]
    exact hp.mono (List.Subset.trans (List.subset_append_left _ _) hsub) hos
  have hnow {os : List Occurrence} (hos : os ⊆ e.occurrences) :
      Pending (h ++ [⟨.evaluates e, s⟩]) s.current Γ os := hlater (fun _ hm => hm) (.refl s) hos
  cases e with
  | literal _ | name _ | receiver _ _ => trivial
  | grouping inner => exact ih.eval inner hs he (hnow fun _ ho => ho)
  | unary op line operand => exact ih.eval operand hs he (hnow fun _ ho => ho)
  | binary op line left right =>
      obtain ⟨hleft, hright⟩ := Fits.and he
      refine placed_andThen (ih.eval left hs hleft (hnow (List.subset_append_left _ _)))
        (hsafe.eval left hs hleft) (hkeeps.eval left) ?_
      intro h₁ _ s₁ hsub hgrows hs₁ _
      exact ih.eval right (hs.later hgrows hs₁) (hright.later hgrows)
        (hlater hsub hgrows (List.subset_append_right _ _))
  | logical op line left right =>
      obtain ⟨hleft, hright⟩ := Fits.and he
      refine placed_andThen (ih.eval left hs hleft (hnow (List.subset_append_left _ _)))
        (hsafe.eval left hs hleft) (hkeeps.eval left) ?_
      intro h₁ v s₁ hsub hgrows hs₁ _
      cases op.decides v with
      | true => trivial
      | false =>
          exact ih.eval right (hs.later hgrows hs₁) (hright.later hgrows)
            (hlater hsub hgrows (List.subset_append_right _ _))
  | assign ref value =>
      have hvalue := (Recorded.append he.recorded).1
      exact ih.eval value hs ⟨he.keeps, hvalue⟩ (hnow (List.subset_cons_self _ _))
  | call callee line arguments =>
      obtain ⟨hcallee, harguments⟩ := Fits.and he
      refine placed_andThen (ih.eval callee hs hcallee (hnow (List.subset_append_left _ _)))
        (hsafe.eval callee hs hcallee) (hkeeps.eval callee) ?_
      intro h₁ f s₁ hsub₁ hgrows₁ hs₁ hf
      have hs₁' := hs.later hgrows₁ hs₁
      have harguments₁ := harguments.later hgrows₁
      refine placed_andThen (ih.evalAll arguments hs₁' harguments₁
          (hlater hsub₁ hgrows₁ (List.subset_append_right _ _)))
        (hsafe.evalAll arguments hs₁' harguments₁) (hkeeps.evalAll arguments) ?_
      intro h₂ vs s₂ _ hgrows₂ hs₂ hvs
      exact ih.call f vs line hs₂ (hf.later hgrows₂) hvs
  | get object property =>
      refine placed_andThen (ih.eval object hs he (hnow fun _ ho => ho))
        (hsafe.eval object hs he) (hkeeps.eval object) ?_
      intro h₁ v s₁ _ _ _ _
      cases v with
      | object o => exact placed_propertyMoments o property
      | _ => trivial
  | set object property value =>
      obtain ⟨hvalue, hobject⟩ := Fits.and he
      refine placed_andThen (ih.eval object hs hobject (hnow (List.subset_append_left _ _)))
        (hsafe.eval object hs hobject) (hkeeps.eval object) ?_
      intro h₁ v s₁ hsub hgrows hs₁ _
      cases v with
      | object o =>
          exact ih.eval value (hs.later hgrows hs₁) (hvalue.later hgrows)
            (hlater hsub hgrows (List.subset_append_right _ _))
      | _ => trivial
  | inherited id line method => exact placed_inheritedMoments id method

theorem evalAll_succ (ih : PlacedWith n fuel) (es : List Expr) (hs : s.SoundAt n setting Γ)
    (hes : Fits n s.distances (Expr.ObeysAll setting Γ es) (Expr.recordsAll Γ es))
    (hp : Pending h s.current Γ (Expr.occurrencesAll es)) :
    Placed n h (evalAllMoments (fuel + 1) es s) := by
  cases es with
  | nil => trivial
  | cons e es =>
      obtain ⟨he, hes⟩ := Fits.and hes
      refine placed_andThen
        (ih.eval e hs he (hp.mono (fun _ hm => hm) (List.subset_append_left _ _)))
        ((safeWith n fuel).eval e hs he) ((keepsPlaceWith fuel).eval e) ?_
      intro h₁ _ s₁ hsub hgrows hs₁ _
      refine ih.evalAll es (hs.later hgrows hs₁) (hes.later hgrows) ?_
      rw [hgrows.current_eq]
      exact hp.mono hsub (List.subset_append_right _ _)

theorem call_succ (ih : PlacedWith n fuel) (callee : Value) (arguments : List Value) (line : Nat)
    (hs : s.Sound n) (hcallee : callee.Sound n s) (harguments : ∀ v ∈ arguments, v.Sound n s) :
    Placed n h (callMoments (fuel + 1) callee arguments line s) := by
  refine placed_mark trivial ?_
  cases callee with
  | function f =>
      refine placed_after_safe (safe_checkArity hs) (keeps_checkArity _ _ _) ?_
      intro _ s₁ hgrows₁ hs₁ harity
      exact ih.invoke f arguments hs₁ (Value.Sound.later (v := .function f) hcallee hgrows₁)
        (fun v hv => (harguments v hv).later hgrows₁) harity
  | cls c =>
      refine placed_after_safe (safe_checkArity hs) (keeps_checkArity _ _ _) ?_
      intro _ s₁ hgrows₁ hs₁ harity
      let s₂ : State := { s₁ with store := s₁.store.addObject }
      let o : Object := ⟨s₁.store.nextObject, c⟩
      have hgrows₂ : s.Grows s₂ := hgrows₁.trans (.of_store .addObject)
      have ho : Value.Sound n s₂ (.object o) := Value.Sound.later (v := .cls c) hcallee hgrows₂
      refine placed_after_of_ok (a := o) (t := s₂) rfl (placed_mark trivial ?_)
      cases hmethod : c.findMethod? initializerName with
      | none => trivial
      | some method =>
          refine placed_after_safe (safe_bindMethod hs₁.addObject
            (soundMethod_of_findMethod? ho hmethod) ho) (keeps_bindMethod _ _) ?_
          rintro f s₃ hgrows₃ hs₃ ⟨hf, hdeclaration⟩
          have harity' : arguments.length = f.arity := by
            rw [harity, Class.arity, hmethod, Function.arity, hdeclaration]
            rfl
          refine placed_mark trivial (ih.invoke f arguments hs₃ hf (fun v hv => ?_) harity')
          exact (harguments v hv).later (hgrows₂.trans hgrows₃)
  | _ => trivial

theorem invoke_succ (ih : PlacedWith n fuel) (f : Function) (arguments : List Value)
    (hs : s.Sound n) (hf : f.Sound n s) (harguments : ∀ v ∈ arguments, v.Sound n s)
    (harity : arguments.length = f.arity) :
    Placed n h (invokeMoments (fuel + 1) f arguments s) := by
  obtain ⟨setting, Γ, hat, hopen, hformed, hfits⟩ := hf.exists_soundAt hs harguments harity
  refine placed_after_of_ok rfl (placed_after_of_ok rfl (placed_mark trivial ?_))
  exact ih.execAll f.declaration.body hat hopen hformed hfits

theorem exec_succ (ih : PlacedWith n fuel) (stmt : Stmt) (hs : s.SoundAt n setting Γ)
    (hopen : Γ.Open) (hformed : stmt.Formed)
    (hfits : Fits n s.distances (stmt.Obeys setting Γ) (stmt.records Γ)) :
    Placed n h (execMoments (fuel + 1) stmt s) := by
  have hsafe := safeWith n fuel
  have hkeeps := keepsPlaceWith fuel
  refine placed_mark ⟨setting, Γ, hs, hopen, hformed, hfits⟩ ?_
  have heval {h : List Moment} (e : Expr)
      (he : Fits n s.distances (e.Obeys setting Γ) (e.records Γ)) :
      Placed n h (evalMoments fuel e s) := ih.eval e hs he (.of_open hopen)
  cases stmt with
  | expression e | print e => exact heval e hfits
  | var name initial =>
      cases initial with
      | none => trivial
      | some e =>
          exact ih.eval e (hs.declaring hopen hformed) ⟨hfits.keeps.2, hfits.recorded⟩
            (.of_declaring hopen (List.mem_append_right _ List.mem_cons_self))
  | block body =>
      refine placed_after_of_ok rfl (placed_after_of_ok rfl (placed_mark trivial ?_))
      exact ih.execAll body (hs.block hopen) hopen.toStable.block hformed hfits
  | ifThen condition thenBranch =>
      obtain ⟨hcondition, hthen⟩ := Fits.and hfits
      refine placed_andThen (heval condition hcondition) (hsafe.eval condition hs hcondition)
        (hkeeps.eval condition) ?_
      intro h₁ v s₁ _ hgrows hs₁ _
      cases v.isTruthy with
      | true => exact ih.exec thenBranch (hs.later hgrows hs₁) hopen hformed.2 (hthen.later hgrows)
      | false => trivial
  | ifElse condition thenBranch elseBranch =>
      obtain ⟨hcondition, hthen, helse⟩ := hfits.branches hformed
      obtain ⟨⟨_, hthenFormed⟩, _, helseFormed⟩ := hformed
      refine placed_andThen (heval condition hcondition) (hsafe.eval condition hs hcondition)
        (hkeeps.eval condition) ?_
      intro h₁ v s₁ _ hgrows hs₁ _
      cases v.isTruthy with
      | true =>
          exact ih.exec thenBranch (hs.later hgrows hs₁) hopen hthenFormed (hthen.later hgrows)
      | false =>
          exact ih.exec elseBranch (hs.later hgrows hs₁) hopen helseFormed (helse.later hgrows)
  | loop condition body =>
      obtain ⟨hcondition, hbody⟩ := Fits.and hfits
      refine placed_andThen (heval condition hcondition) (hsafe.eval condition hs hcondition)
        (hkeeps.eval condition) ?_
      intro h₁ v s₁ _ hgrows₁ hs₁ _
      have hs₁' := hs.later hgrows₁ hs₁
      cases v.isTruthy with
      | false => trivial
      | true =>
          have hbody₁ := hbody.later hgrows₁
          refine placed_andThen (ih.exec body hs₁' hopen hformed.2 hbody₁)
            (hsafe.exec body hs₁' hopen hformed.2 hbody₁) (hkeeps.exec body) ?_
          intro h₂ flow s₂ _ hgrows₂ hs₂ _
          cases flow with
          | normal =>
              exact ih.exec (.loop condition body) (hs₁'.later hgrows₂ hs₂) hopen hformed
                ((hfits.later hgrows₁).later hgrows₂)
          | returning _ _ => trivial
  | function d => exact placed_functionMoments d
  | giveBack line value =>
      cases value with
      | none => trivial
      | some e => exact heval e ⟨hfits.keeps.2.2, hfits.recorded⟩
  | classDef name superclass methods => exact placed_classMoments ⟨s, name, superclass, methods⟩

theorem execAll_succ (ih : PlacedWith n fuel) (stmts : List Stmt) (hs : s.SoundAt n setting Γ)
    (hopen : Γ.Open) (hformed : Stmt.FormedAll stmts)
    (hfits : Fits n s.distances (Stmt.ObeysAll setting Γ stmts) (Stmt.recordsAll Γ stmts)) :
    Placed n h (execAllMoments (fuel + 1) stmts s) := by
  cases stmts with
  | nil => trivial
  | cons stmt stmts =>
      obtain ⟨hformedFirst, hformedRest⟩ := hformed
      obtain ⟨hfirst, hrest⟩ := Fits.and hfits
      refine placed_andThen (ih.exec stmt hs hopen hformedFirst hfirst)
        ((safeWith n fuel).exec stmt hs hopen hformedFirst hfirst)
        ((keepsPlaceWith fuel).exec stmt) ?_
      intro h₁ flow s₁ _ hgrows hs₁ hflow
      cases flow with
      | returning _ _ => trivial
      | normal =>
          have hopen' := stmt.open_after hformedFirst hopen
          exact ih.execAll stmts ⟨hs₁, hflow, hopen'.nested,
            stmt.fitsIn_after hformedFirst hs.setting_fits⟩ hopen' hformedRest
            (hrest.later hgrows)

end PlacedWith

/-- However much fuel there is, expressions are evaluated at places of which this is known. -/
theorem placedWith (n : NodeId) (fuel : Nat) : PlacedWith n fuel := by
  induction fuel with
  | zero => constructor <;> intros <;> trivial
  | succ fuel ih =>
      exact {
        eval := ih.eval_succ
        evalAll := ih.evalAll_succ
        call := ih.call_succ
        invoke := ih.invoke_succ
        exec := ih.exec_succ
        execAll := ih.execAll_succ }

theorem placed_programMoments (fuel : Nat) {program : List Stmt} (hs : s.Sound n)
    (hcurrent : s.current = s.globals) (hformed : Stmt.FormedAll program)
    (hfits : Fits n s.distances (Stmt.ObeysAll ⟨.topLevel, .outside⟩ [] program)
      (Stmt.recordsAll [] program)) : Placed n h (programMoments fuel program s) := by
  induction program generalizing h s with
  | nil => trivial
  | cons stmt stmts ih =>
      obtain ⟨hformedFirst, hformedRest⟩ := hformed
      obtain ⟨hfirst, hrest⟩ := Fits.and hfits
      have hat : s.SoundAt n ⟨.topLevel, .outside⟩ [] :=
        ⟨hs, hcurrent, .top, fun h => nomatch h⟩
      refine placed_andThen ((placedWith n fuel).exec stmt hat Scopes.open_top hformedFirst hfirst)
        ((safeWith n fuel).exec stmt hat Scopes.open_top hformedFirst hfirst)
        ((keepsPlaceWith fuel).exec stmt) ?_
      intro h₁ flow s₁ _ hgrows₁ hs₁ _
      cases flow with
      | returning _ _ => trivial
      | normal =>
          refine placed_after_safe (safe_echo hs₁) (keeps_echo stmt) ?_
          intro _ s₂ hgrows₂ hs₂ _
          have hgrows := hgrows₁.trans hgrows₂
          rw [stmt.after_nil] at hrest
          refine ih hs₂ ?_ hformedRest (hrest.later hgrows)
          rw [hgrows.current_eq, hcurrent, hgrows.globals_eq]

end Eval

end ScopedScript
