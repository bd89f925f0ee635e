import ScopedScript.Proofs.Loop.Lockstep

/-!
# Coupled runs in lockstep

From coupled states, the same program ends alike in both runs where both find the same scopes for
its references. By induction on the fuel, this is shown of expressions, of calls, which go on in the
scopes of a closure, and of statements.
-/

namespace ScopedScript

/-- How statements end alike. -/
inductive Flow.Alike (T : Tables) (w : World) : Flow → Flow → Prop where
  | normal : Flow.Alike T w .normal .normal
  | returning {v v' line} : Value.Alike T w v v' →
      Flow.Alike T w (.returning v line) (.returning v' line)

theorem Flow.Alike.inScopes {T : Tables} {w : World} {flow flow' : Flow} {e e' : EnvId}
    (h : Flow.Alike T w flow flow') : Flow.Alike T (w.inScopes e e') flow flow' := by
  cases h with
  | normal => exact .normal
  | returning hv => exact .returning (hv.mono World.precedes_inScopes)

/-- How much fuel the runs are given: the first one at most as much as the second one, or else it
has some to spare. -/
def Side.Allows (side : Side) (spare fuel fuel' : Nat) : Prop :=
  match side with
  | .first => fuel ≤ fuel'
  | .second => fuel' + spare ≤ fuel

namespace Eval

/-- With given amounts of fuel, coupled runs end alike. -/
structure EndAlikeWith (side : Side) (T : Tables) (fuel fuel' : Nat) : Prop where
  eval {w : World} {P : Layers} {node : NodeId → NodeId} (e : Expr) : w.Coupled T → w.At P →
    e.Aligned T node P →
    EndAlike side T w (Eval.eval fuel e) (Eval.eval fuel' (e.relabel (.renumber node)))
      (Value.Alike T)
  evalAll {w : World} {P : Layers} {node : NodeId → NodeId} (es : List Expr) : w.Coupled T →
    w.At P → Expr.AlignedAll T node P es →
    EndAlike side T w (Eval.evalAll fuel es)
      (Eval.evalAll fuel' (Expr.relabelAll (.renumber node) es))
      fun w' => List.Forall₂ (Value.Alike T w')
  call {w : World} {callee callee' : Value} {arguments arguments' : List Value} (line : Nat) :
    w.Coupled T → Value.Alike T w callee callee' →
    List.Forall₂ (Value.Alike T w) arguments arguments' →
    EndAlike side T w (Eval.call fuel callee arguments line)
      (Eval.call fuel' callee' arguments' line) (Value.Alike T)
  invoke {w : World} {f f' : Function} {arguments arguments' : List Value} : w.Coupled T →
    Function.Alike T w [] f f' → List.Forall₂ (Value.Alike T w) arguments arguments' →
    EndAlike side T w (Eval.invoke fuel f arguments) (Eval.invoke fuel' f' arguments')
      (Value.Alike T)
  exec {w : World} {P : Layers} {node : NodeId → NodeId} (s : Stmt) : w.Coupled T → w.At P →
    s.Aligned T node P →
    EndAlike side T w (Eval.exec fuel s) (Eval.exec fuel' (s.relabel (.renumber node)))
      (Flow.Alike T)
  execAll {w : World} {P : Layers} {node : NodeId → NodeId} (ss : List Stmt) : w.Coupled T →
    w.At P → Stmt.AlignedAll T node P ss →
    EndAlike side T w (Eval.execAll fuel ss)
      (Eval.execAll fuel' (Stmt.relabelAll (.renumber node) ss)) (Flow.Alike T)

namespace EndAlikeWith

variable {side : Side} {T : Tables} {fuel fuel' : Nat} {w : World} {P : Layers}
variable {node : NodeId → NodeId}

theorem eval_succ (ih : EndAlikeWith side T fuel fuel') (e : Expr) (hcoupled : w.Coupled T)
    (hat : w.At P) (he : e.Aligned T node P) :
    EndAlike side T w (Eval.eval (fuel + 1) e)
      (Eval.eval (fuel' + 1) (e.relabel (.renumber node))) (Value.Alike T) := by
  cases e with
  | literal value => exact .pure hcoupled (Value.alike_of_plain value.isPlain_value)
  | grouping inner => exact ih.eval inner hcoupled hat he
  | unary op line operand =>
      refine (ih.eval operand hcoupled hat he).bind ?_
      intro v v' w₁ _ hcoupled₁ hv
      exact endAlike_ofOperation hcoupled₁ (hv.resembles.unary_eq op) fun u hu =>
        Value.alike_of_plain (UnaryOp.isPlain_apply hu)
  | binary op line left right =>
      obtain ⟨hleft, hright⟩ := List.forall_mem_append.mp he
      refine (ih.eval left hcoupled hat hleft).bind ?_
      intro v v' w₁ hw₁ hcoupled₁ hv
      refine (ih.eval right hcoupled₁ (hat.later hw₁) hright).bind ?_
      intro u u' w₂ hw₂ hcoupled₂ hu
      exact endAlike_ofOperation hcoupled₂
        ((hv.mono hw₂.toPrecedes).resembles.binary_eq hu.resembles op) fun t ht =>
        Value.alike_of_plain (BinaryOp.isPlain_apply ht)
  | logical op line left right =>
      obtain ⟨hleft, hright⟩ := List.forall_mem_append.mp he
      refine (ih.eval left hcoupled hat hleft).bind ?_
      intro v v' w₁ hw₁ hcoupled₁ hv
      rw [hv.resembles.decides_eq op]
      cases op.decides v with
      | true => exact .pure hcoupled₁ hv
      | false => exact ih.eval right hcoupled₁ (hat.later hw₁) hright
  | name ref =>
      exact endAlike_read hcoupled hat ((he _ List.mem_cons_self).imp fun _ _ h => h.1)
  | assign ref value =>
      obtain ⟨href, hvalue⟩ := List.forall_mem_cons.mp he
      refine (ih.eval value hcoupled hat hvalue).bind ?_
      intro v v' w₁ hw₁ hcoupled₁ hv
      refine (endAlike_assign hcoupled₁ (hat.later hw₁) (Option.Rel.imp href fun _ _ h => h.1)
        hv).bind ?_
      intro _ _ w₂ hw₂ hcoupled₂ _
      exact .pure hcoupled₂ (hv.mono hw₂.toPrecedes)
  | call callee line arguments =>
      obtain ⟨hcallee, harguments⟩ := List.forall_mem_append.mp he
      refine (ih.eval callee hcoupled hat hcallee).bind ?_
      intro f f' w₁ hw₁ hcoupled₁ hf
      refine (ih.evalAll arguments hcoupled₁ (hat.later hw₁) harguments).bind ?_
      intro vs vs' w₂ hw₂ hcoupled₂ hvs
      exact ih.call line hcoupled₂ (hf.mono hw₂.toPrecedes) hvs
  | get object name =>
      refine (ih.eval object hcoupled hat he).bind ?_
      intro v v' w₁ _ hcoupled₁ hv
      cases hv with
      | object hc => exact endAlike_property hcoupled₁ (.object hc)
      | _ => exact .fail hcoupled₁
  | set object name value =>
      obtain ⟨hobject, hvalue⟩ := List.forall_mem_append.mp he
      refine (ih.eval object hcoupled hat hobject).bind ?_
      intro v v' w₁ hw₁ hcoupled₁ hv
      cases hv with
      | object _ =>
          refine (ih.eval value hcoupled₁ (hat.later hw₁) hvalue).bind ?_
          intro u u' w₂ _ hcoupled₂ hu
          refine (endAlike_setField hcoupled₂ hu).bind ?_
          intro _ _ w₃ hw₃ hcoupled₃ _
          exact .pure hcoupled₃ (hu.mono hw₃.toPrecedes)
      | _ => exact .fail hcoupled₁
  | receiver id line =>
      exact endAlike_read hcoupled hat ((he _ List.mem_cons_self).imp fun _ _ h => h.1)
  | inherited id line method =>
      exact endAlike_inheritedMethod hcoupled hat rfl rfl (he _ List.mem_cons_self)

theorem evalAll_succ (ih : EndAlikeWith side T fuel fuel') (es : List Expr)
    (hcoupled : w.Coupled T) (hat : w.At P) (hes : Expr.AlignedAll T node P es) :
    EndAlike side T w (Eval.evalAll (fuel + 1) es)
      (Eval.evalAll (fuel' + 1) (Expr.relabelAll (.renumber node) es))
      fun w' => List.Forall₂ (Value.Alike T w') := by
  cases es with
  | nil => exact .pure hcoupled .nil
  | cons e es =>
      obtain ⟨he, hes⟩ := List.forall_mem_append.mp hes
      refine (ih.eval e hcoupled hat he).bind ?_
      intro v v' w₁ hw₁ hcoupled₁ hv
      refine (ih.evalAll es hcoupled₁ (hat.later hw₁) hes).bind ?_
      intro vs vs' w₂ hw₂ hcoupled₂ hvs
      exact .pure hcoupled₂ (.cons (hv.mono hw₂.toPrecedes) hvs)

theorem call_succ (ih : EndAlikeWith side T fuel fuel') {callee callee' : Value}
    {arguments arguments' : List Value} (line : Nat) (hcoupled : w.Coupled T)
    (hcallee : Value.Alike T w callee callee')
    (harguments : List.Forall₂ (Value.Alike T w) arguments arguments') :
    EndAlike side T w (Eval.call (fuel + 1) callee arguments line)
      (Eval.call (fuel' + 1) callee' arguments' line) (Value.Alike T) := by
  have hlength : arguments'.length = arguments.length := harguments.length_eq.symm
  have hlater {w' : World} (hw : w.Advances w') :
      List.Forall₂ (Value.Alike T w') arguments arguments' :=
    harguments.imp fun _ _ hv => hv.mono hw.toPrecedes
  cases hcallee with
  | function hf =>
      refine (endAlike_checkArity hcoupled hf.resembles.arity_eq hlength).bind ?_
      intro _ _ w₁ hw₁ hcoupled₁ _
      exact ih.invoke hcoupled₁ (hf.mono hw₁.toPrecedes) (hlater hw₁)
  | @cls c c' hc =>
      refine (endAlike_checkArity hcoupled hc.resembles.arity_eq hlength).bind ?_
      intro _ _ w₁ hw₁ hcoupled₁ _
      refine (endAlike_newObject hcoupled₁ (hc.mono hw₁.toPrecedes)).bind ?_
      intro o o' w₂ hw₂ hcoupled₂ ho
      have hw₁₂ := hw₁.trans hw₂
      have hmethods := (hc.mono hw₁₂.toPrecedes).methods initializerName
      cases hmethod : c.findMethod? initializerName with
      | none =>
          simp only [hmethods.eq_none hmethod]
          exact .pure hcoupled₂ ho
      | some method =>
          obtain ⟨method', hmethod', halike⟩ := hmethods.exists_of_eq_some hmethod
          simp only [hmethod']
          refine (endAlike_bindMethod hcoupled₂ halike ho).bind ?_
          intro f f' w₃ hw₃ hcoupled₃ hf
          refine (ih.invoke hcoupled₃ hf (hlater (hw₁₂.trans hw₃))).bind ?_
          intro _ _ w₄ hw₄ hcoupled₄ _
          exact .pure hcoupled₄ (ho.mono (hw₃.trans hw₄).toPrecedes)
  | native =>
      refine (endAlike_checkArity hcoupled rfl hlength).bind ?_
      intro _ _ w₁ _ hcoupled₁ _
      exact endAlike_askHost hcoupled₁
  | _ => exact .fail hcoupled

theorem invoke_succ (ih : EndAlikeWith side T fuel fuel') {f f' : Function}
    {arguments arguments' : List Value} (hcoupled : w.Coupled T)
    (hf : Function.Alike T w [] f f')
    (harguments : List.Forall₂ (Value.Alike T w) arguments arguments') :
    EndAlike side T w (Eval.invoke (fuel + 1) f arguments)
      (Eval.invoke (fuel' + 1) f' arguments') (Value.Alike T) := by
  cases hf with
  | @mk id d closure closure' isInitializer node P hchains hmeet hd =>
      cases d with
      | mk name parameters body =>
          have hnames : (parameters.map (Name.relabel (.renumber node))).map Name.text =
              parameters.map Name.text := by
            rw [List.map_map]
            rfl
          refine (endAlike_newEnv hcoupled hchains).bind ?_
          intro scope scope' w₁ hw₁ hcoupled₁ hscope
          have hvalues := harguments.imp fun _ _ (hv : Value.Alike T w _ _) =>
            hv.mono hw₁.toPrecedes
          change EndAlike side T w₁ _ (do
            onStore fun store => store.defineAll scope'
              ((parameters.map (Name.relabel (.renumber node))).map Name.text) arguments'
            _) _
          rw [hnames]
          refine (endAlike_defineAll hcoupled₁ hscope.1 hvalues).bind ?_
          intro _ _ w₂ hw₂ hcoupled₂ _
          have hinner : (w₂.inScopes scope scope').At (.both :: P) :=
            (hscope.mono hw₂.toPrecedes).mono World.precedes_inScopes
          refine ((ih.execAll body hcoupled₂.inScopes hinner hd).within
            fun _ _ _ => Flow.Alike.inScopes).bind ?_
          intro flow flow' w₃ hw₃ hcoupled₃ hflow
          cases isInitializer with
          -- an initializer gives back its receiver, whatever its body gave back
          | true =>
              have hlater := (hw₁.trans hw₂).trans hw₃
              exact endAlike_readAt hcoupled₃ (hchains.mono hlater.toPrecedes) (.here hmeet)
          | false =>
              cases hflow with
              | normal => exact .pure hcoupled₃ .nil
              | returning hv => exact .pure hcoupled₃ hv

/-- A condition decides alike between two ways to go on. -/
theorem condition (ih : EndAlikeWith side T fuel fuel') {condition : Expr}
    {m₁ m₁' m₂ m₂' : Eval Flow} (hcoupled : w.Coupled T) (hat : w.At P)
    (hcondition : condition.Aligned T node P)
    (hthen : ∀ w', w.Advances w' → w'.Coupled T → EndAlike side T w' m₁ m₁' (Flow.Alike T))
    (helse : ∀ w', w.Advances w' → w'.Coupled T → EndAlike side T w' m₂ m₂' (Flow.Alike T)) :
    EndAlike side T w (Eval.eval fuel condition >>= fun v => if v.isTruthy then m₁ else m₂)
      (Eval.eval fuel' (condition.relabel (.renumber node)) >>= fun v =>
        if v.isTruthy then m₁' else m₂') (Flow.Alike T) := by
  refine (ih.eval condition hcoupled hat hcondition).bind ?_
  intro v v' w₁ hw₁ hcoupled₁ hv
  rw [hv.resembles.isTruthy_eq]
  cases v.isTruthy with
  | true => exact hthen w₁ hw₁ hcoupled₁
  | false => exact helse w₁ hw₁ hcoupled₁

theorem exec_var (ih : EndAlikeWith side T fuel fuel') {name : Name} {initial : Option Expr}
    (hcoupled : w.Coupled T) (hat : w.At P) (hs : (Stmt.var name initial).Aligned T node P) :
    EndAlike side T w (Eval.exec (fuel + 1) (.var name initial))
      (Eval.exec (fuel' + 1) ((Stmt.var name initial).relabel (.renumber node)))
      (Flow.Alike T) := by
  obtain ⟨hmeet, hinitial⟩ := hs
  have hdefine {w' : World} {v v' : Value} (hcoupled' : w'.Coupled T) (hat' : w'.At P)
      (hv : Value.Alike T w' v v') :
      EndAlike side T w' (do define name.text v; return Flow.normal)
        (do define name.text v'; return Flow.normal) (Flow.Alike T) := by
    refine (endAlike_define hcoupled' hat' hmeet hv).bind ?_
    intro _ _ w₂ _ hcoupled₂ _
    exact .pure hcoupled₂ .normal
  cases initial with
  | none => exact hdefine hcoupled hat .nil
  | some e =>
      refine (ih.eval e hcoupled hat (hinitial e rfl)).bind ?_
      intro v v' w₁ hw₁ hcoupled₁ hv
      exact hdefine hcoupled₁ (hat.later hw₁) hv

theorem exec_block (ih : EndAlikeWith side T fuel fuel') {body : List Stmt}
    (hcoupled : w.Coupled T) (hat : w.At P) (hs : (Stmt.block body).Aligned T node P) :
    EndAlike side T w (Eval.exec (fuel + 1) (.block body))
      (Eval.exec (fuel' + 1) ((Stmt.block body).relabel (.renumber node))) (Flow.Alike T) := by
  refine .bind_of_same (Run.gets_apply _ _) (Run.gets_apply _ _) ?_
  refine (endAlike_newEnv hcoupled hat).bind ?_
  intro scope scope' w₁ _ hcoupled₁ hscope
  have hinner : (w₁.inScopes scope scope').At (.both :: P) :=
    hscope.mono World.precedes_inScopes
  exact (ih.execAll body hcoupled₁.inScopes hinner hs).within fun _ _ _ => Flow.Alike.inScopes

theorem exec_loop (ih : EndAlikeWith side T fuel fuel') {condition : Expr} {body : Stmt}
    (hcoupled : w.Coupled T) (hat : w.At P) (hs : (Stmt.loop condition body).Aligned T node P) :
    EndAlike side T w (Eval.exec (fuel + 1) (.loop condition body))
      (Eval.exec (fuel' + 1) ((Stmt.loop condition body).relabel (.renumber node)))
      (Flow.Alike T) := by
  refine ih.condition hcoupled hat hs.1 ?_ fun _ _ hcoupled₁ => .pure hcoupled₁ .normal
  intro w₁ hw₁ hcoupled₁
  refine (ih.exec body hcoupled₁ (hat.later hw₁) hs.2).bind ?_
  intro flow flow' w₂ hw₂ hcoupled₂ hflow
  cases hflow with
  -- what is left of the loop is the loop itself, with less fuel
  | normal => exact ih.exec (.loop condition body) hcoupled₂ (hat.later (hw₁.trans hw₂)) hs
  | returning hv => exact .pure hcoupled₂ (.returning hv)

theorem exec_function {d : FunctionDecl} (hcoupled : w.Coupled T) (hat : w.At P)
    (hs : (Stmt.function d).Aligned T node P) :
    EndAlike side T w (Eval.exec (fuel + 1) (.function d))
      (Eval.exec (fuel' + 1) ((Stmt.function d).relabel (.renumber node))) (Flow.Alike T) := by
  obtain ⟨hmeet, hd⟩ := hs
  refine (endAlike_freshIdentity hcoupled).bind ?_
  rintro id _ w₁ hw₁ hcoupled₁ rfl
  have hat₁ := hat.later hw₁
  refine .bind_of_same (Run.gets_apply _ _) (Run.gets_apply _ _) ?_
  rw [FunctionDecl.name_relabel, Name.text_relabel]
  refine (endAlike_define hcoupled₁ hat₁ hmeet (.function (.mk hat₁ hmeet hd))).bind ?_
  intro _ _ w₂ _ hcoupled₂ _
  exact .pure hcoupled₂ .normal

theorem exec_classDef {name : Name} {superclass : Option Reference} {methods : List FunctionDecl}
    (hcoupled : w.Coupled T) (hat : w.At P)
    (hs : (Stmt.classDef name superclass methods).Aligned T node P) :
    EndAlike side T w (Eval.exec (fuel + 1) (.classDef name superclass methods))
      (Eval.exec (fuel' + 1) ((Stmt.classDef name superclass methods).relabel (.renumber node)))
      (Flow.Alike T) := by
  cases superclass with
  | none =>
      obtain ⟨hmeet, hmethods⟩ := hs
      refine (endAlike_plainClass hcoupled hat hmeet hmethods).bind ?_
      intro _ _ w₁ _ hcoupled₁ _
      exact .pure hcoupled₁ .normal
  | some ref =>
      obtain ⟨hmeet, href, hmethods⟩ := hs
      refine (endAlike_subclass hcoupled hat hmeet
        (Option.Rel.imp href fun _ _ h => h.1) hmethods).bind ?_
      intro _ _ w₁ _ hcoupled₁ _
      exact .pure hcoupled₁ .normal

theorem exec_succ (ih : EndAlikeWith side T fuel fuel') (s : Stmt) (hcoupled : w.Coupled T)
    (hat : w.At P) (hs : s.Aligned T node P) :
    EndAlike side T w (Eval.exec (fuel + 1) s)
      (Eval.exec (fuel' + 1) (s.relabel (.renumber node))) (Flow.Alike T) := by
  cases s with
  | expression e =>
      refine (ih.eval e hcoupled hat hs).bind ?_
      intro v v' w₁ _ hcoupled₁ _
      have hnoted : EndAlike side T w₁
          (Run.modify fun s => { s with lastValue := v } : Eval Unit)
          (Run.modify fun s => { s with lastValue := v' } : Eval Unit) fun _ _ _ => True :=
        endAlike_of_same hcoupled₁ rfl rfl ⟨rfl, rfl, rfl, rfl⟩ ⟨rfl, rfl, rfl, rfl⟩ rfl rfl
          hcoupled₁.even.sink_eq hcoupled₁.even.nativeCalls_eq hcoupled₁.even.nextIdentity_eq
          trivial
      refine hnoted.bind ?_
      intro _ _ w₂ _ hcoupled₂ _
      exact .pure hcoupled₂ .normal
  | print e =>
      refine (ih.eval e hcoupled hat hs).bind ?_
      intro v v' w₁ _ hcoupled₁ hv
      rw [hv.resembles.render_eq]
      refine (endAlike_emit hcoupled₁).bind ?_
      intro _ _ w₂ _ hcoupled₂ _
      exact .pure hcoupled₂ .normal
  | var name initial => exact ih.exec_var hcoupled hat hs
  | block body => exact ih.exec_block hcoupled hat hs
  | ifThen condition thenBranch =>
      exact ih.condition hcoupled hat hs.1
        (fun _ hw hcoupled₁ => ih.exec thenBranch hcoupled₁ (hat.later hw) hs.2)
        fun _ _ hcoupled₁ => .pure hcoupled₁ .normal
  | ifElse condition thenBranch elseBranch =>
      exact ih.condition hcoupled hat hs.1
        (fun _ hw hcoupled₁ => ih.exec thenBranch hcoupled₁ (hat.later hw) hs.2.1)
        fun _ hw hcoupled₁ => ih.exec elseBranch hcoupled₁ (hat.later hw) hs.2.2
  | loop condition body => exact ih.exec_loop hcoupled hat hs
  | function d => exact exec_function hcoupled hat hs
  | giveBack line value =>
      cases value with
      | none => exact .pure hcoupled (.returning .nil)
      | some e =>
          refine (ih.eval e hcoupled hat (hs e rfl)).bind ?_
          intro v v' w₁ _ hcoupled₁ hv
          exact .pure hcoupled₁ (.returning hv)
  | classDef name superclass methods => exact exec_classDef hcoupled hat hs

theorem execAll_succ (ih : EndAlikeWith side T fuel fuel') (ss : List Stmt)
    (hcoupled : w.Coupled T) (hat : w.At P) (hss : Stmt.AlignedAll T node P ss) :
    EndAlike side T w (Eval.execAll (fuel + 1) ss)
      (Eval.execAll (fuel' + 1) (Stmt.relabelAll (.renumber node) ss)) (Flow.Alike T) := by
  cases ss with
  | nil => exact .pure hcoupled .normal
  | cons s ss =>
      refine (ih.exec s hcoupled hat hss.1).bind ?_
      intro flow flow' w₁ hw₁ hcoupled₁ hflow
      cases hflow with
      | normal => exact ih.execAll ss hcoupled₁ (hat.later hw₁) hss.2
      | returning hv => exact .pure hcoupled₁ (.returning hv)

end EndAlikeWith

/-- Coupled runs end alike, unless the one that is given less fuel runs out of it. -/
theorem endAlikeWith (side : Side) (T : Tables) (fuel fuel' : Nat)
    (h : side.Allows 0 fuel fuel') : EndAlikeWith side T fuel fuel' := by
  induction fuel generalizing fuel' with
  | zero =>
      cases side with
      | first => constructor <;> intros <;> exact .firstSpent rfl
      | second =>
          cases Nat.le_zero.mp h
          constructor <;> intros <;> exact .secondSpent rfl
  | succ fuel ih =>
      cases fuel' with
      | zero =>
          cases side with
          | first => cases h
          | second => constructor <;> intros <;> exact .secondSpent rfl
      | succ fuel' =>
          have hnext : side.Allows 0 fuel fuel' := by
            cases side with
            | first => exact Nat.le_of_succ_le_succ h
            | second => exact Nat.le_of_succ_le_succ h
          have ih := ih fuel' hnext
          exact {
            eval := ih.eval_succ
            evalAll := ih.evalAll_succ
            call := ih.call_succ
            invoke := ih.invoke_succ
            exec := ih.exec_succ
            execAll := ih.execAll_succ }

end Eval

end ScopedScript
