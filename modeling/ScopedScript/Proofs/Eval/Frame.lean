import ScopedScript.Proofs.Eval.Confinement

/-!
# What a call leaves alone

A call changes no scope and no object that was there before, unless it can be reached from the
called value, from the arguments or from the global scope. What it gives leads to nothing else
either, save to what it has made. Where the call stands does not matter: the scope that is current
is neither searched nor changed by it.
-/

namespace ScopedScript

/-- The value that a `return` carries leads to nothing outside a set of cells. -/
def Flow.In (K : Cell → Prop) : Flow → Prop
  | .normal => True
  | .returning v _ => v.In K

namespace Outset

variable {b : Outset} {s : State} {e : EnvId}

/-- Which scope is current has no bearing on what a run can get at. -/
theorem Confined.enter (hs : b.Confined s) : b.Confined { s with current := e } where
  globals := hs.globals
  closed := hs.closed
  discreet := hs.discreet
  later := hs.later

theorem Confined.settled_enter (hs : b.Confined s) (he : b.InReach s (.env e)) :
    b.Settled { s with current := e } where
  toConfined := hs.enter
  current := he

end Outset

namespace Eval

variable {b : Outset} {s : State} {fuel : Nat}

theorem Stays.within {scope : EnvId} {m : Eval Flow}
    (h : Stays b { s with current := scope } m fun flow s' => flow.In (b.InReach s')) :
    Stays b s (Eval.within scope m) fun flow s' => flow.In (b.InReach s') := by
  refine ensures_within (Run.Ensures.mono h ?_ ?_)
  · rintro flow s' ⟨hadvances, hflow⟩
    exact ⟨⟨hadvances.spares.within, hadvances.confined.enter⟩, hflow⟩
  · intro halt s' hspares
    exact hspares.within

theorem gives_unary {op : UnaryOp} {v : Value} {line : Nat} (hs : b.Confined s) :
    Gives b s (ofOperation (op.apply v) line) := by
  unfold UnaryOp.apply
  split
  · exact .pure hs fun _ hc => hc.elim
  · exact .fail
  · exact .pure hs fun _ hc => hc.elim

theorem gives_binary {op : BinaryOp} {v w : Value} {line : Nat} (hs : b.Confined s) :
    Gives b s (ofOperation (op.apply v w) line) := by
  unfold BinaryOp.apply
  split
  · exact .pure hs fun _ hc => hc.elim
  · exact .pure hs fun _ hc => hc.elim
  · exact .pure hs fun _ hc => hc.elim
  · exact .pure hs (by cases op <;> exact fun _ hc => hc.elim)
  · exact .fail

/-- With a given fuel, whatever is run leaves alone what the run cannot get at, and gives nothing
that leads there. -/
structure StaysWith (b : Outset) (fuel : Nat) : Prop where
  eval {s : State} (hs : b.Settled s) (e : Expr) : Gives b s (Eval.eval fuel e)
  evalAll {s : State} (hs : b.Settled s) (es : List Expr) :
    Stays b s (Eval.evalAll fuel es) fun vs s' => ∀ v ∈ vs, v.In (b.InReach s')
  call {s : State} (hs : b.Confined s) {callee : Value} {arguments : List Value}
    (hcallee : callee.In (b.InReach s)) (harguments : ∀ v ∈ arguments, v.In (b.InReach s))
    (line : Nat) : Gives b s (Eval.call fuel callee arguments line)
  invoke {s : State} (hs : b.Confined s) {f : Function} {arguments : List Value}
    (hf : b.InReach s (.env f.closure)) (harguments : ∀ v ∈ arguments, v.In (b.InReach s)) :
    Gives b s (Eval.invoke fuel f arguments)
  exec {s : State} (hs : b.Settled s) (stmt : Stmt) :
    Stays b s (Eval.exec fuel stmt) fun flow s' => flow.In (b.InReach s')
  execAll {s : State} (hs : b.Settled s) (stmts : List Stmt) :
    Stays b s (Eval.execAll fuel stmts) fun flow s' => flow.In (b.InReach s')

namespace StaysWith

theorem eval_succ (ih : StaysWith b fuel) (hs : b.Settled s) (e : Expr) :
    Gives b s (Eval.eval (fuel + 1) e) := by
  cases e with
  | literal value => exact .pure hs.toConfined value.in_value
  | grouping inner => exact ih.eval hs inner
  | unary op line operand =>
      exact (ih.eval hs operand).bind fun v s₁ h₁ _ => gives_unary h₁.confined
  | binary op line left right =>
      refine (ih.eval hs left).bind fun v s₁ h₁ _ => ?_
      exact (ih.eval (hs.advance h₁) right).bind fun w s₂ h₂ _ => gives_binary h₂.confined
  | logical op line left right =>
      refine (ih.eval hs left).bind fun v s₁ h₁ hv => ?_
      cases hdecides : op.decides v with
      | true => exact .pure h₁.confined hv
      | false => exact ih.eval (hs.advance h₁) right
  | name ref => exact gives_read hs
  | assign ref value =>
      refine (ih.eval hs value).bind fun v s₁ h₁ hv => ?_
      refine (stays_assign (hs.advance h₁) hv).bind fun _ s₂ h₂ _ => ?_
      exact .pure h₂.confined (hv.later h₂.spares)
  | call callee line arguments =>
      refine (ih.eval hs callee).bind fun f s₁ h₁ hf => ?_
      refine (ih.evalAll (hs.advance h₁) arguments).bind fun vs s₂ h₂ hvs => ?_
      exact ih.call h₂.confined (hf.later h₂.spares) hvs line
  | get object name =>
      refine (ih.eval hs object).bind fun v s₁ h₁ hv => ?_
      cases v with
      | object o => exact gives_property h₁.confined hv
      | _ => exact .fail
  | set object name value =>
      refine (ih.eval hs object).bind fun v s₁ h₁ hv => ?_
      cases v with
      | object o =>
          refine (ih.eval (hs.advance h₁) value).bind fun w s₂ h₂ hw => ?_
          have ho : b.InReach s₂ (.object o.id) := (hv _ (Or.inl rfl)).later h₂.spares
          have hset := h₂.confined.setField (x := name.text) ho hw
          exact .bind_of_ok rfl hset (.pure hset.confined (hw.later hset.spares))
      | _ => exact .fail
  | receiver id line => exact gives_read hs
  | inherited id line method => exact gives_inheritedMethod hs

theorem evalAll_succ (ih : StaysWith b fuel) (hs : b.Settled s) (es : List Expr) :
    Stays b s (Eval.evalAll (fuel + 1) es) fun vs s' => ∀ v ∈ vs, v.In (b.InReach s') := by
  cases es with
  | nil => exact .pure hs.toConfined fun _ h => (List.not_mem_nil h).elim
  | cons e es =>
      refine (ih.eval hs e).bind fun v s₁ h₁ hv => ?_
      refine (ih.evalAll (hs.advance h₁) es).bind fun vs s₂ h₂ hvs => ?_
      exact .pure h₂.confined (List.forall_mem_cons.mpr ⟨hv.later h₂.spares, hvs⟩)

theorem call_succ (ih : StaysWith b fuel) (hs : b.Confined s) {callee : Value}
    {arguments : List Value} (hcallee : callee.In (b.InReach s))
    (harguments : ∀ v ∈ arguments, v.In (b.InReach s)) (line : Nat) :
    Gives b s (Eval.call (fuel + 1) callee arguments line) := by
  cases callee with
  | function f =>
      refine (stays_checkArity hs).bind fun _ s₁ h₁ _ => ?_
      have hf : b.InReach s (.env f.closure) := hcallee _ (Or.inr rfl)
      exact ih.invoke h₁.confined (hf.later h₁.spares)
        fun v hv => (harguments v hv).later h₁.spares
  | cls k =>
      refine (stays_checkArity hs).bind fun _ s₁ h₁ _ => ?_
      refine (stays_newObject h₁.confined (hcallee.later h₁.spares)).bind fun o s₂ h₂ ho => ?_
      have hk := hcallee.later (h₁.trans h₂).spares
      cases hmethod : k.findMethod? initializerName with
      | none => exact .pure h₂.confined ho
      | some method =>
          simp only
          refine (stays_bindMethod h₂.confined (inReach_closure hk hmethod) ho).bind
            fun f s₃ h₃ hf => ?_
          refine (ih.invoke h₃.confined (hf _ (Or.inr rfl)) fun v hv => ?_).bind
            fun _ s₄ h₄ _ => .pure h₄.confined (ho.later (h₃.trans h₄).spares)
          exact (harguments v hv).later ((h₁.trans h₂).trans h₃).spares
  | native f =>
      refine (stays_checkArity hs).bind fun _ s₁ h₁ _ => ?_
      exact gives_askHost h₁.confined fun v hv => (harguments v hv).later h₁.spares
  | _ => exact .fail

/-- The scope of a call is new, and encloses nothing but the body of the function. -/
theorem invoke_succ (ih : StaysWith b fuel) (hs : b.Confined s) {f : Function}
    {arguments : List Value} (hf : b.InReach s (.env f.closure))
    (harguments : ∀ v ∈ arguments, v.In (b.InReach s)) :
    Gives b s (Eval.invoke (fuel + 1) f arguments) := by
  refine (stays_newEnv hs hf).bind fun scope s₁ h₁ hscope => ?_
  have h₂ := h₁.confined.defineAll (f.declaration.parameters.map Name.text) hscope
    fun v hv => (harguments v hv).later h₁.spares
  refine .bind_of_ok rfl h₂ ?_
  have hsettled := h₂.confined.settled_enter (hscope.later h₂.spares)
  refine (ih.execAll hsettled f.declaration.body).within.bind fun flow s₃ h₃ hflow => ?_
  cases f.isInitializer with
  | true => exact gives_readAt h₃.confined (hf.later (h₁.trans (h₂.trans h₃)).spares)
  | false =>
      cases flow with
      | normal => exact .pure h₃.confined Value.in_nil
      | returning v line => exact .pure h₃.confined hflow

theorem exec_succ (ih : StaysWith b fuel) (hs : b.Settled s) (stmt : Stmt) :
    Stays b s (Eval.exec (fuel + 1) stmt) fun flow s' => flow.In (b.InReach s') := by
  cases stmt with
  | expression e =>
      refine (ih.eval hs e).bind fun v s₁ h₁ _ => ?_
      have hlast : b.Advances s₁ { s₁ with lastValue := v } :=
        h₁.confined.of_same_store ⟨rfl, rfl, rfl, rfl, rfl, .refl _⟩ rfl (Nat.le_refl _)
      exact .bind_of_ok rfl hlast (.pure hlast.confined trivial)
  | print e =>
      refine (ih.eval hs e).bind fun v s₁ h₁ _ => ?_
      exact (stays_emit h₁.confined).bind fun _ s₂ h₂ _ => .pure h₂.confined trivial
  | var name initial =>
      have hdefine {s₁ : State} {v : Value} (h₁ : b.Settled s₁) (hv : v.In (b.InReach s₁)) :
          Stays b s₁ (do define name.text v; return Flow.normal)
            fun flow s' => flow.In (b.InReach s') :=
        (stays_define h₁ hv).bind fun _ s₂ h₂ _ => .pure h₂.confined trivial
      cases initial with
      | none => exact hdefine hs Value.in_nil
      | some e => exact (ih.eval hs e).bind fun v s₁ h₁ hv => hdefine (hs.advance h₁) hv
  | block body =>
      refine .bind_same (Run.gets_apply s State.current) ?_
      refine (stays_newEnv hs.toConfined hs.current).bind fun scope s₁ h₁ hscope => ?_
      exact (ih.execAll (h₁.confined.settled_enter hscope) body).within
  | ifThen condition thenBranch =>
      refine (ih.eval hs condition).bind fun v s₁ h₁ _ => ?_
      cases v.isTruthy with
      | true => exact ih.exec (hs.advance h₁) thenBranch
      | false => exact .pure h₁.confined trivial
  | ifElse condition thenBranch elseBranch =>
      refine (ih.eval hs condition).bind fun v s₁ h₁ _ => ?_
      cases v.isTruthy with
      | true => exact ih.exec (hs.advance h₁) thenBranch
      | false => exact ih.exec (hs.advance h₁) elseBranch
  | loop condition body =>
      refine (ih.eval hs condition).bind fun v s₁ h₁ _ => ?_
      cases v.isTruthy with
      | true =>
          refine (ih.exec (hs.advance h₁) body).bind fun flow s₂ h₂ hflow => ?_
          cases flow with
          | normal => exact ih.exec ((hs.advance h₁).advance h₂) (.loop condition body)
          | returning value line => exact .pure h₂.confined hflow
      | false => exact .pure h₁.confined trivial
  | function d =>
      refine (stays_freshIdentity hs.toConfined).bind fun id s₁ h₁ hid => ?_
      have hs₁ := hs.advance h₁
      refine .bind_same (Run.gets_apply s₁ State.current) ?_
      refine (stays_define hs₁ ?_).bind fun _ s₂ h₂ _ => .pure h₂.confined trivial
      rintro c (rfl | rfl)
      · exact hid
      · exact hs₁.current
  | giveBack line value =>
      cases value with
      | none => exact .pure hs.toConfined Value.in_nil
      | some e => exact (ih.eval hs e).bind fun v s₁ h₁ hv => .pure h₁.confined hv
  | classDef name superclass declarations =>
      exact (stays_declareClass hs).bind fun _ s₁ h₁ _ => .pure h₁.confined trivial

theorem execAll_succ (ih : StaysWith b fuel) (hs : b.Settled s) (stmts : List Stmt) :
    Stays b s (Eval.execAll (fuel + 1) stmts) fun flow s' => flow.In (b.InReach s') := by
  cases stmts with
  | nil => exact .pure hs.toConfined trivial
  | cons stmt stmts =>
      refine (ih.exec hs stmt).bind fun flow s₁ h₁ hflow => ?_
      cases flow with
      | normal => exact ih.execAll (hs.advance h₁) stmts
      | returning v line => exact .pure h₁.confined hflow

end StaysWith

theorem staysWith (b : Outset) (fuel : Nat) : StaysWith b fuel := by
  induction fuel with
  | zero => constructor <;> intros <;> exact .outOfFuel
  | succ fuel ih =>
      exact {
        eval := ih.eval_succ
        evalAll := ih.evalAll_succ
        call := ih.call_succ
        invoke := ih.invoke_succ
        exec := ih.exec_succ
        execAll := ih.execAll_succ }

/-- At the beginning of a run, the run can get at what can be reached then. -/
theorem confined_outset (hhost : s.host.Discreet) (values : List Value) :
    Outset.Confined ⟨s, values⟩ s where
  globals := Or.inl (Or.inr .refl)
  closed c c' hlink hc := by
    rcases hc with hreached | ⟨hnot, hhas⟩
    · exact Or.inl (hreached.link hlink)
    · exact (hnot hhas).elim
  discreet := hhost
  later _ hc := hc

theorem in_outset {values : List Value} {v : Value} (hv : v ∈ values) :
    v.In (Outset.InReach ⟨s, values⟩ s) :=
  fun c hc => Or.inl (Or.inl ⟨v, hv, c, hc, .refl⟩)

/-- However a call ends, the scopes and the objects that were there before are as they were, unless
they could be reached from the called value, from the arguments or from the global scope. What its
value leads to could be reached before, or has been made by the call. -/
theorem call_spares_unreached (hhost : s.host.Discreet) (callee : Value) (arguments : List Value)
    (fuel line : Nat) :
    (∀ s', (call fuel callee arguments line).Ends s s' →
      (∀ e, s.Has (.env e) → ¬s.ReachedBy (callee :: arguments) (.env e) →
        s'.store.envs[e]? = s.store.envs[e]?) ∧
      ∀ o, s.Has (.object o) → ¬s.ReachedBy (callee :: arguments) (.object o) →
        s'.store.fields[o]? = s.store.fields[o]?) ∧
    ∀ v s', call fuel callee arguments line s = .ok v s' → ∀ c, s'.Reaches v c →
      s.ReachedBy (callee :: arguments) c ∨ ¬s.Has c ∧ s'.Has c := by
  let b : Outset := ⟨s, callee :: arguments⟩
  have hcall : Gives b s (call fuel callee arguments line) :=
    (staysWith b fuel).call (confined_outset hhost _) (in_outset List.mem_cons_self)
      (fun v hv => in_outset (List.mem_cons_of_mem _ hv)) line
  constructor
  · intro s' hends
    have hspares : b.Spares s s' := by
      refine Run.Ensures.of_ends (Run.Ensures.mono hcall ?_ fun _ _ h => h) hends
      exact fun _ _ h => h.1.spares
    exact ⟨hspares.envs, hspares.fields⟩
  · intro v s' hok c hc
    obtain ⟨hadvances, hv⟩ := Run.Ensures.ok hcall hok
    exact hc.mem hadvances.confined.closed hv

/-- A function that sets a variable `raised`. -/
def raising : Function where
  id := 1
  declaration := ⟨⟨"raise", 1⟩, [],
    [.expression (.assign ⟨0, ⟨"raised", 1⟩⟩ (.literal (.bool true))),
      .giveBack 1 (some (.name ⟨1, ⟨"raised", 1⟩⟩))]⟩
  closure := 1
  isInitializer := false

/-- A state in which two scopes beside one another have a variable `raised`. -/
def twoFlags : State :=
  let s := State.initial (.ofClock fun _ => 0) .accepting
  { s with
    store := (((s.store.addEnv (some 0)).define 1 "raised" (.bool false)).addEnv (some 0)).define 2
      "raised" (.bool false)
    distances := ((∅ : Distances).insert 0 1).insert 1 1
    nextIdentity := 3 }

/-- For example, a function that sets a variable of one scope leaves another one alone. -/
theorem call_spares_unreached_flag : twoFlags.host.Discreet ∧
    ∃ s', call 9 (.function raising) [] 1 twoFlags = .ok (.bool true) s' ∧
      s'.store.binding? 1 "raised" = some (.bool true) ∧
      s'.store.envs[2]? = twoFlags.store.envs[2]? := by
  have hhost : twoFlags.host.Discreet := Host.discreet_ofClock _
  have hcall : ∃ s', call 9 (.function raising) [] 1 twoFlags = .ok (.bool true) s' ∧
      s'.store.binding? 1 "raised" = some (.bool true) := ⟨_, rfl, rfl⟩
  have hlinks : ∀ c c', twoFlags.store.Link c c' → c ≠ .env 2 → c' ≠ .env 2 := by
    rintro c c' hlink _ rfl
    have h₁ := (Store.Link.of_define hlink).resolve_right id
    have h₂ := (Store.Link.of_addEnv h₁).resolve_right (by simp)
    have h₃ := (Store.Link.of_define h₂).resolve_right id
    have h₄ := (Store.Link.of_addEnv h₃).resolve_right (by simp)
    have h₅ := (Store.Link.of_define h₄).resolve_right (by simp [Value.Mentions])
    exact Store.Link.not_of_empty ((Store.Link.of_addEnv h₅).resolve_right (by simp))
  have hout : ¬twoFlags.ReachedBy [.function raising] (.env 2) := by
    intro h
    refine h.mem hlinks ?_ (by decide) rfl
    simp [Value.In, Value.Mentions, Function.Mentions, raising]
  obtain ⟨s', hok, hraised⟩ := hcall
  obtain ⟨hspares, _⟩ := call_spares_unreached hhost (.function raising) [] 9 1
  exact ⟨hhost, s', hok, hraised, (hspares s' (Or.inl ⟨_, hok⟩)).1 2 (by decide) hout⟩

end Eval

end ScopedScript
