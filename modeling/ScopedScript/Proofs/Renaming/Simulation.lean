import ScopedScript.Proofs.Renaming.Lockstep

/-!
# Twins run in lockstep

From twin states, a program and its twin end alike, however much fuel they are given. By induction
on the fuel, the same is shown of expressions, of calls, which go on in the scopes of a closure, and
of statements. The marks of the scopes around a place are those along the chain of the current
scope.
-/

namespace ScopedScript

/-- How statements that are twins end. -/
inductive Flow.Twin {ρ : Renaming} (p : TwinStates ρ) : Flow → Flow → Prop where
  | normal : Flow.Twin p .normal .normal
  | returning {v v' line} : p.Related v v' →
      Flow.Twin p (.returning v line) (.returning v' line)

theorem Flow.Twin.inScope {ρ : Renaming} {p : TwinStates ρ} {flow flow' : Flow} {scope : EnvId}
    (h : Flow.Twin p flow flow') : Flow.Twin (p.inScope scope) flow flow' := by
  cases h with
  | normal => exact .normal
  | returning hv => exact .returning (hv.mono (p.advances_inScope scope))

namespace Eval

variable {ρ : Renaming} {p : TwinStates ρ} {marks : Marks}

/-- With a given fuel, twins run in lockstep. -/
structure LockstepWith (ρ : Renaming) (fuel : Nat) : Prop where
  eval {p : TwinStates ρ} {marks : Marks} (e : Expr) : p.Marked p.state.current marks →
    Lockstep p (Eval.eval fuel e) (Eval.eval fuel (e.mapReferences (ρ.twinReference marks)))
      TwinStates.Related
  evalAll {p : TwinStates ρ} {marks : Marks} (es : List Expr) :
    p.Marked p.state.current marks →
    Lockstep p (Eval.evalAll fuel es)
      (Eval.evalAll fuel (Expr.mapReferencesAll (ρ.twinReference marks) es))
      fun q => List.Forall₂ q.Related
  call {p : TwinStates ρ} {callee callee' : Value} {arguments arguments' : List Value}
    (line : Nat) : p.Related callee callee' → List.Forall₂ p.Related arguments arguments' →
    Lockstep p (Eval.call fuel callee arguments line) (Eval.call fuel callee' arguments' line)
      TwinStates.Related
  invoke {p : TwinStates ρ} {f f' : Function} {arguments arguments' : List Value} :
    Function.Twin ρ p.state p.marking [] f f' → List.Forall₂ p.Related arguments arguments' →
    Lockstep p (Eval.invoke fuel f arguments) (Eval.invoke fuel f' arguments') TwinStates.Related
  exec {p : TwinStates ρ} {marks : Marks} {s s' : Stmt} : p.Marked p.state.current marks →
    Stmt.Twin ρ marks s s' → Lockstep p (Eval.exec fuel s) (Eval.exec fuel s') Flow.Twin
  execAll {p : TwinStates ρ} {marks : Marks} {ss ss' : List Stmt} :
    p.Marked p.state.current marks → Stmt.TwinAll ρ marks ss ss' →
    Lockstep p (Eval.execAll fuel ss) (Eval.execAll fuel ss') Flow.Twin

namespace LockstepWith

variable {fuel : Nat}

theorem eval_succ (ih : LockstepWith ρ fuel) (hold : Ordinary ρ.old) (hnew : Ordinary ρ.new)
    (e : Expr) (hmarked : p.Marked p.state.current marks) :
    Lockstep p (Eval.eval (fuel + 1) e)
      (Eval.eval (fuel + 1) (e.mapReferences (ρ.twinReference marks))) TwinStates.Related := by
  have hkeeps := keepsPlaceWith fuel
  cases e with
  | literal value => exact .pure (Value.twin_of_plain value.isPlain_value)
  | grouping inner => exact ih.eval inner hmarked
  | unary op line operand =>
      refine (ih.eval operand hmarked).bind (hkeeps.eval operand) ?_
      intro v v' q _ _ hv
      exact lockstep_ofOperation (hv.resembles.unary_eq op) fun w hw =>
        Value.twin_of_plain (UnaryOp.isPlain_apply hw)
  | binary op line left right =>
      refine (ih.eval left hmarked).bind (hkeeps.eval left) ?_
      intro v v' q₁ hgrows₁ h₁ hv
      refine (ih.eval right (hmarked.later hgrows₁ h₁)).bind (hkeeps.eval right) ?_
      intro w w' q₂ _ h₂ hw
      exact lockstep_ofOperation ((hv.mono h₂).resembles.binary_eq hw.resembles op) fun u hu =>
        Value.twin_of_plain (BinaryOp.isPlain_apply hu)
  | logical op line left right =>
      refine (ih.eval left hmarked).bind (hkeeps.eval left) ?_
      intro v v' q hgrows hq hv
      rw [hv.resembles.decides_eq op]
      cases op.decides v with
      | true => exact .pure hv
      | false => exact ih.eval right (hmarked.later hgrows hq)
  | name ref => exact lockstep_read hmarked
  | assign ref value =>
      refine (ih.eval value hmarked).bind (hkeeps.eval value) ?_
      intro v v' q₁ hgrows₁ h₁ hv
      refine (lockstep_assign (hmarked.later hgrows₁ h₁) hv).bind (keeps_assign _ _) ?_
      intro _ _ q₂ _ h₂ _
      exact .pure (hv.mono h₂)
  | call callee line arguments =>
      refine (ih.eval callee hmarked).bind (hkeeps.eval callee) ?_
      intro f f' q₁ hgrows₁ h₁ hf
      refine (ih.evalAll arguments (hmarked.later hgrows₁ h₁)).bind (hkeeps.evalAll arguments) ?_
      intro vs vs' q₂ _ h₂ hvs
      exact ih.call line (hf.mono h₂) hvs
  | get object name =>
      refine (ih.eval object hmarked).bind (hkeeps.eval object) ?_
      intro v v' q _ _ hv
      cases hv with
      | object hc => exact lockstep_property (.object hc)
      | _ => exact .fail
  | set object name value =>
      refine (ih.eval object hmarked).bind (hkeeps.eval object) ?_
      intro v v' q₁ hgrows₁ h₁ hv
      cases hv with
      | object _ =>
          refine (ih.eval value (hmarked.later hgrows₁ h₁)).bind (hkeeps.eval value) ?_
          intro w w' q₂ _ h₂ hw
          refine (lockstep_setField hw).bind (keeps_onStore fun _ => .setField) ?_
          intro _ _ q₃ _ h₃ _
          exact .pure (hw.mono h₃)
      | _ => exact .fail
  | receiver id line =>
      let ref : Reference := ⟨id, ⟨receiverWord, line⟩⟩
      have hread : Lockstep p (read ref.id ref.name)
          (read (ρ.twinReference marks ref).id (ρ.twinReference marks ref).name)
          TwinStates.Related := lockstep_read hmarked
      rwa [Renaming.twinReference_of_ne hold.1.symm hnew.1.symm] at hread
  | inherited id line method => exact lockstep_inheritedMethod hold hnew

theorem evalAll_succ (ih : LockstepWith ρ fuel) (es : List Expr)
    (hmarked : p.Marked p.state.current marks) :
    Lockstep p (Eval.evalAll (fuel + 1) es)
      (Eval.evalAll (fuel + 1) (Expr.mapReferencesAll (ρ.twinReference marks) es))
      fun q => List.Forall₂ q.Related := by
  cases es with
  | nil => exact .pure .nil
  | cons e es =>
      refine (ih.eval e hmarked).bind ((keepsPlaceWith fuel).eval e) ?_
      intro v v' q₁ hgrows₁ h₁ hv
      refine (ih.evalAll es (hmarked.later hgrows₁ h₁)).bind ((keepsPlaceWith fuel).evalAll es) ?_
      intro vs vs' q₂ _ h₂ hvs
      exact .pure (.cons (hv.mono h₂) hvs)

theorem call_succ (ih : LockstepWith ρ fuel) {callee callee' : Value}
    {arguments arguments' : List Value} (line : Nat) (hcallee : p.Related callee callee')
    (harguments : List.Forall₂ p.Related arguments arguments') :
    Lockstep p (Eval.call (fuel + 1) callee arguments line)
      (Eval.call (fuel + 1) callee' arguments' line) TwinStates.Related := by
  have hlength : arguments'.length = arguments.length := harguments.length_eq.symm
  have hlater {q r : TwinStates ρ} (hr : q.Advances r)
      (h : List.Forall₂ q.Related arguments arguments') :
      List.Forall₂ r.Related arguments arguments' := h.imp fun _ _ hv => hv.mono hr
  cases hcallee with
  | function hf =>
      refine (lockstep_checkArity hf.resembles.arity_eq hlength).bind (keeps_checkArity _ _ _) ?_
      intro _ _ q _ hq _
      exact ih.invoke (hf.mono hq) (hlater hq harguments)
  | @cls c c' hc =>
      refine (lockstep_checkArity hc.resembles.arity_eq hlength).bind (keeps_checkArity _ _ _) ?_
      intro _ _ q₁ _ h₁ _
      refine (lockstep_newObject (hc.mono h₁)).bind (keeps_newObject _) ?_
      intro o o' q₂ _ h₂ ho
      -- the object exists before its class is asked for an initializer
      have h₁₂ := h₁.trans h₂
      have hmethods := (hc.mono h₁₂).methods initializerName
      cases hmethod : c.findMethod? initializerName with
      | none =>
          simp only [hmethods.eq_none hmethod]
          exact .pure ho
      | some method =>
          obtain ⟨method', hmethod', htwin⟩ := hmethods.exists_of_eq_some hmethod
          simp only [hmethod']
          refine (lockstep_bindMethod htwin ho).bind (keeps_bindMethod _ _) ?_
          intro f f' q₃ _ h₃ hf
          refine (ih.invoke hf (hlater (h₁₂.trans h₃) harguments)).bind
            ((keepsPlaceWith fuel).invoke _ _) ?_
          intro _ _ q₄ _ h₄ _
          exact .pure (ho.mono (h₃.trans h₄))
  | native =>
      refine (lockstep_checkArity rfl hlength).bind (keeps_checkArity _ _ _) ?_
      intro _ _ q _ _ _
      exact lockstep_askHost
  | _ => exact .fail

/-- The scope of a call is marked if the names of the parameters are exchanged. -/
theorem invoke_succ (ih : LockstepWith ρ fuel) (hold : Ordinary ρ.old) (hnew : Ordinary ρ.new)
    {f f' : Function} {arguments arguments' : List Value}
    (hf : Function.Twin ρ p.state p.marking [] f f')
    (harguments : List.Forall₂ p.Related arguments arguments') :
    Lockstep p (Eval.invoke (fuel + 1) f arguments) (Eval.invoke (fuel + 1) f' arguments')
      TwinStates.Related := by
  cases hf with
  | @mk _ _ _ closure isInitializer marks hmarked hd =>
      cases hd with
      | @mk _ b name parameters body body' hbody =>
          refine (lockstep_newEnv b).bind (keeps_newEnv _) ?_
          rintro _ _ _ _ h₁ ⟨rfl, rfl, rfl⟩
          have hvalues := harguments.imp fun _ _ (hv : p.Related _ _) => hv.mono h₁
          refine (lockstep_defineAll (Marking.mark_self _) hvalues).bind
            (keeps_onStore fun _ => .defineAll) ?_
          intro _ _ q₂ _ h₂ _
          have hscope : q₂.Marked p.state.store.nextEnv (b :: marks) :=
            (p.marked_addEnv hmarked b).mono h₂
          have hscope' := hscope.mono (q₂.advances_inScope p.state.store.nextEnv)
          refine ((ih.execAll hscope' hbody).within fun q flow flow' => Flow.Twin.inScope).bind
            (keeps_within ((keepsPlaceWith fuel).execAll _)) ?_
          intro flow flow' q₃ _ _ hflow
          cases isInitializer with
          -- an initializer gives back its receiver, whatever its body gave back
          | true => exact lockstep_readAt_of_ne hold.1.symm hnew.1.symm
          | false =>
              cases hflow with
              | normal => exact .pure .nil
              | returning hv => exact .pure hv

/-- A condition decides alike between two ways to go on. -/
theorem condition (ih : LockstepWith ρ fuel) {condition : Expr} {m₁ m₁' m₂ m₂' : Eval Flow}
    (hmarked : p.Marked p.state.current marks)
    (hthen : ∀ q : TwinStates ρ, q.Marked q.state.current marks → Lockstep q m₁ m₁' Flow.Twin)
    (helse : ∀ q : TwinStates ρ, q.Marked q.state.current marks → Lockstep q m₂ m₂' Flow.Twin) :
    Lockstep p (Eval.eval fuel condition >>= fun v => if v.isTruthy then m₁ else m₂)
      (Eval.eval fuel (condition.mapReferences (ρ.twinReference marks)) >>= fun v =>
        if v.isTruthy then m₁' else m₂') Flow.Twin := by
  refine (ih.eval condition hmarked).bind ((keepsPlaceWith fuel).eval condition) ?_
  intro v v' q hgrows hq hv
  rw [hv.resembles.isTruthy_eq]
  cases v.isTruthy with
  | true => exact hthen q (hmarked.later hgrows hq)
  | false => exact helse q (hmarked.later hgrows hq)

theorem exec_var (ih : LockstepWith ρ fuel) {name : Name} {initial : Option Expr}
    (hmarked : p.Marked p.state.current marks) :
    Lockstep p (Eval.exec (fuel + 1) (.var name initial))
      (Eval.exec (fuel + 1) (.var (ρ.twinName (marks.at 0) name)
        (Expr.mapReferencesOption (ρ.twinReference marks) initial))) Flow.Twin := by
  have hdefine {q : TwinStates ρ} {v v' : Value} (hq : q.Marked q.state.current marks)
      (hv : q.Related v v') : Lockstep q (do define name.text v; return Flow.normal)
        (do define (ρ.twinName (marks.at 0) name).text v'; return Flow.normal) Flow.Twin := by
    have hname : ρ.exchange (q.marking q.state.current) name.text =
        (ρ.twinName (marks.at 0) name).text := by
      rw [q.marking_of_marked hq]
      rfl
    refine (lockstep_define hname hv).bind (keeps_define _ _) ?_
    intro _ _ _ _ _ _
    exact .pure .normal
  cases initial with
  | none => exact hdefine hmarked .nil
  | some e =>
      refine (ih.eval e hmarked).bind ((keepsPlaceWith fuel).eval e) ?_
      intro v v' q hgrows hq hv
      exact hdefine (hmarked.later hgrows hq) hv

theorem exec_block (ih : LockstepWith ρ fuel) {b : Bool} {body body' : List Stmt}
    (hmarked : p.Marked p.state.current marks) (hbody : Stmt.TwinAll ρ (b :: marks) body body') :
    Lockstep p (Eval.exec (fuel + 1) (.block body)) (Eval.exec (fuel + 1) (.block body'))
      Flow.Twin := by
  refine .bind_of_ok (q := p) (a := p.state.current) (b := p.state.current) rfl rfl (.refl _ _) ?_
  refine (lockstep_newEnv b).bind (keeps_newEnv _) ?_
  rintro _ _ _ _ _ ⟨rfl, rfl, rfl⟩
  have hscope := (p.marked_addEnv hmarked b).mono
    ((p.addEnv (some p.state.current) b).advances_inScope p.state.store.nextEnv)
  exact (ih.execAll hscope hbody).within fun q flow flow' => Flow.Twin.inScope

theorem exec_loop (ih : LockstepWith ρ fuel) {condition : Expr} {body body' : Stmt}
    (hmarked : p.Marked p.state.current marks) (hbody : Stmt.Twin ρ marks body body') :
    Lockstep p (Eval.exec (fuel + 1) (.loop condition body))
      (Eval.exec (fuel + 1) (.loop (condition.mapReferences (ρ.twinReference marks)) body'))
      Flow.Twin := by
  refine ih.condition hmarked ?_ fun _ _ => .pure .normal
  intro q₁ hmarked₁
  refine (ih.exec hmarked₁ hbody).bind ((keepsPlaceWith fuel).exec body) ?_
  intro flow flow' q₂ hgrows₂ h₂ hflow
  cases hflow with
  -- what is left of the loop is the loop itself, with less fuel
  | normal => exact ih.exec (hmarked₁.later hgrows₂ h₂) (.loop hbody)
  | returning hv => exact .pure (.returning hv)

theorem exec_function {d d' : FunctionDecl} (hmarked : p.Marked p.state.current marks)
    (hname : ρ.exchange (marks.at 0) d.name.text = d.name.text)
    (hd : FunctionDecl.Twin ρ marks d d') :
    Lockstep p (Eval.exec (fuel + 1) (.function d)) (Eval.exec (fuel + 1) (.function d'))
      Flow.Twin := by
  refine lockstep_freshIdentity.bind keeps_freshIdentity ?_
  rintro _ id q hgrows hq rfl
  have hmarked' := hmarked.later hgrows hq
  refine .bind_of_ok (q := q) (a := q.state.current) (b := q.state.current) rfl rfl (.refl _ _) ?_
  rw [hd.name_eq]
  have hdefined : ρ.exchange (q.marking q.state.current) d.name.text = d.name.text := by
    rw [q.marking_of_marked hmarked']
    exact hname
  -- the scope that declares the function is also the one that it closes over
  refine (lockstep_define hdefined (.function (.mk hmarked' hd))).bind (keeps_define _ _) ?_
  intro _ _ _ _ _ _
  exact .pure .normal

theorem exec_succ (ih : LockstepWith ρ fuel) {s s' : Stmt}
    (hmarked : p.Marked p.state.current marks) (hs : Stmt.Twin ρ marks s s') :
    Lockstep p (Eval.exec (fuel + 1) s) (Eval.exec (fuel + 1) s') Flow.Twin := by
  have hkeeps := keepsPlaceWith fuel
  cases hs with
  | @expression _ e =>
      refine (ih.eval e hmarked).bind (hkeeps.eval e) ?_
      intro v v' q _ _ hv
      exact .bind_of_ok (q := q.note hv) (a := ()) (b := ()) rfl rfl (q.advances_note hv)
        (.pure .normal)
  | @print _ e =>
      refine (ih.eval e hmarked).bind (hkeeps.eval e) ?_
      intro v v' q _ _ hv
      rw [hv.resembles.render_eq]
      refine lockstep_emit.bind (keeps_emit _) ?_
      intro _ _ _ _ _ _
      exact .pure .normal
  | var => exact ih.exec_var hmarked
  | block hbody => exact ih.exec_block hmarked hbody
  | ifThen hthen =>
      exact ih.condition hmarked (fun _ hq => ih.exec hq hthen) fun _ _ => .pure .normal
  | ifElse hthen helse =>
      exact ih.condition hmarked (fun _ hq => ih.exec hq hthen) fun _ hq => ih.exec hq helse
  | loop hbody => exact ih.exec_loop hmarked hbody
  | function hname hd => exact exec_function hmarked hname hd
  | @giveBack _ line value =>
      cases value with
      | none => exact .pure (.returning .nil)
      | some e =>
          refine (ih.eval e hmarked).bind (hkeeps.eval e) ?_
          intro v v' q _ _ hv
          exact .pure (.returning hv)
  | plainClass hname hds =>
      refine (lockstep_plainClass hmarked hname hds).bind (keeps_declareClass _ _ _) ?_
      intro _ _ _ _ _ _
      exact .pure .normal
  | subclass hname hds =>
      refine (lockstep_subclass hmarked hname hds).bind (keeps_declareClass _ _ _) ?_
      intro _ _ _ _ _ _
      exact .pure .normal

theorem execAll_succ (ih : LockstepWith ρ fuel) {ss ss' : List Stmt}
    (hmarked : p.Marked p.state.current marks) (hss : Stmt.TwinAll ρ marks ss ss') :
    Lockstep p (Eval.execAll (fuel + 1) ss) (Eval.execAll (fuel + 1) ss') Flow.Twin := by
  cases hss with
  | nil => exact .pure .normal
  | @cons _ s _ _ _ hs hss =>
      refine (ih.exec hmarked hs).bind ((keepsPlaceWith fuel).exec s) ?_
      intro flow flow' q hgrows hq hflow
      cases hflow with
      | normal => exact ih.execAll (hmarked.later hgrows hq) hss
      | returning hv => exact .pure (.returning hv)

end LockstepWith

/-- Twins run in lockstep, however much fuel there is. -/
theorem lockstepWith (hold : Ordinary ρ.old) (hnew : Ordinary ρ.new) (fuel : Nat) :
    LockstepWith ρ fuel := by
  induction fuel with
  | zero => constructor <;> intros <;> exact .outOfFuel
  | succ fuel ih =>
      exact {
        eval := ih.eval_succ hold hnew
        evalAll := ih.evalAll_succ
        call := ih.call_succ
        invoke := ih.invoke_succ hold hnew
        exec := ih.exec_succ
        execAll := ih.execAll_succ }

theorem lockstep_echo {s s' : Stmt} (hs : Stmt.Twin ρ marks s s') :
    Lockstep p (echo s) (echo s') fun _ _ _ => True := by
  refine .bind_of_ok (Run.get_apply _) (Run.get_apply _) (.refl _ _) ?_
  cases hs with
  | expression =>
      rw [show p.other.lastValue.render = p.state.lastValue.render from p.render_eq,
        show p.other.echo = p.state.echo from rfl]
      cases p.state.echo with
      | true => exact lockstep_emit
      | false => exact .pure trivial
  | _ => exact .pure trivial

/-- Programs that are twins run in lockstep at the top level. -/
theorem lockstep_runProgram (hold : Ordinary ρ.old) (hnew : Ordinary ρ.new) (fuel : Nat)
    {program program' : List Stmt} (hp : p.state.current = p.state.globals)
    (hprogram : Stmt.TwinAll ρ [] program program') :
    Lockstep p (runProgram fuel program) (runProgram fuel program') fun _ _ _ => True := by
  induction program generalizing p program' with
  | nil =>
      cases hprogram
      exact .pure trivial
  | cons s ss ih =>
      cases hprogram with
      | cons hs hss =>
          have hmarked : p.Marked p.state.current [] := hp
          refine ((lockstepWith hold hnew fuel).exec hmarked hs).bind
            ((keepsPlaceWith fuel).exec s) ?_
          intro flow flow' q₁ hgrows₁ h₁ hflow
          cases hflow with
          | returning _ => exact .fail
          | normal =>
              refine (lockstep_echo hs).bind (keeps_echo s) ?_
              intro _ _ q₂ hgrows₂ h₂ _
              exact ih ((hmarked.later hgrows₁ h₁).later hgrows₂ h₂) hss

end Eval

end ScopedScript
