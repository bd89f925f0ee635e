import ScopedScript.Proofs.Eval.Safety

/-!
# Programs run safely

Resolution and evaluation agree about scopes. Where a program obeys the rules of scoping and what is
found for its references is known, running it in a sound state is safe, however much fuel it is
given: the chain of the current scope keeps matching the scopes that enclose the place of the
program, through blocks, calls and the bodies of methods, also those of functions that were
declared by an earlier program.
-/

namespace ScopedScript

/-- What is known of the way in which a statement ends, with given scopes after it. -/
def Flow.Sound (n : NodeId) (s : State) (setting : Setting) (Γ : Scopes) : Flow → Prop
  | .normal => s.Matches s.current Γ
  | .returning v _ => v.Sound n s ∧ setting.body ≠ .topLevel

/-- What is known of the declarations of methods is known of each of them. -/
theorem FunctionDecl.knownIn_of_mem {n : NodeId} {s : State} {setting : Setting} {Γ : Scopes}
    {d : FunctionDecl} {ds : List FunctionDecl} (hd : d ∈ ds) (hstable : Γ.Stable)
    (hsetting : setting.FitsIn Γ) (hformed : FunctionDecl.FormedAll ds)
    (hfits : Fits n s.distances (FunctionDecl.ObeysAll setting Γ ds)
      (FunctionDecl.recordsAll Γ ds)) :
    d.KnownIn n s { setting with body := Resolve.methodKind d.name } Γ := by
  induction ds with
  | nil => cases hd
  | cons d' ds ih =>
      obtain ⟨hformedFirst, hformedRest⟩ := hformed
      obtain ⟨hfirst, hrest⟩ := Fits.and hfits
      rcases List.mem_cons.mp hd with rfl | hlater
      · refine ⟨hstable, hsetting, ?_, hformedFirst, hfirst⟩
        unfold Resolve.methodKind
        by_cases hname : d.name.text = initializerName <;> simp [hname]
      · exact ih hlater hformedRest hrest

namespace State.SoundAt

variable {n : NodeId} {s : State} {setting : Setting} {Γ : Scopes} {x : String}

/-- The initial value of a variable is found where the variable is in the course of being
declared. -/
theorem declaring (h : s.SoundAt n setting Γ) (hopen : Γ.Open) (hx : Ordinary x) :
    s.SoundAt n setting (Γ.declaring x) :=
  ⟨h.sound, h.matches.declaring, .declaring hopen hx, h.setting_fits.declaring⟩

/-- A block is executed in a new scope of its own. -/
theorem block (h : s.SoundAt n setting Γ) (hopen : Γ.Open) :
    State.SoundAt n
      { s with store := s.store.addEnv (some s.current), current := s.store.nextEnv } setting
      ([] :: Γ) where
  sound := h.sound.addEnv.of_same rfl rfl rfl rfl
  «matches» := h.matches.addEnv.mono (n := n) ⟨rfl, .refl _, .refl _ _⟩
  nested := hopen.toStable.block.nested
  setting_fits := h.setting_fits.cons

end State.SoundAt

/-- The body of a function is executed in a new scope, which binds the parameters. -/
theorem Function.Sound.exists_soundAt {n : NodeId} {s : State} {f : Function}
    {arguments : List Value} (hf : f.Sound n s) (hs : s.Sound n)
    (harguments : ∀ v ∈ arguments, v.Sound n s) (harity : arguments.length = f.arity) :
    ∃ setting Γ, State.SoundAt n
      { s with
        store := (s.store.addEnv (some f.closure)).defineAll s.store.nextEnv
          (f.declaration.parameters.map Name.text) arguments
        current := s.store.nextEnv } setting Γ ∧
      Γ.Open ∧ Stmt.FormedAll f.declaration.body ∧
      Fits n s.distances (Stmt.ObeysAll setting Γ f.declaration.body)
        (Stmt.recordsAll Γ f.declaration.body) := by
  obtain ⟨⟨setting, Γ, hmatches, hknown⟩, _⟩ := hf
  let s₁ : State := { s with store := s.store.addEnv (some f.closure) }
  have harguments₁ : ∀ v ∈ arguments, v.Sound n s₁ := fun v hv =>
    (harguments v hv).later (.of_store .addEnv)
  have hsound (names : List String) :
      State.Sound n { s with store := s₁.store.defineAll s.store.nextEnv names arguments } :=
    State.Sound.defineAll hs.addEnv harguments₁
  have hmatches' := hmatches.addEnv.defineAll harity
  cases hd : f.declaration with
  | mk name parameters body =>
      rw [hd] at hknown hmatches'
      obtain ⟨hstable, hsetting, _, ⟨_, hordinary, hformed⟩, ⟨_, hobeys⟩, hrecorded⟩ := hknown
      have hopen := hstable.block.introducingAll hordinary
      exact ⟨setting, _, ⟨(hsound _).of_same rfl rfl rfl rfl,
        hmatches'.mono (n := n) ⟨rfl, .refl _, .refl _ _⟩, hopen.nested,
        hsetting.cons.introducingAll⟩, hopen, hformed, hobeys, hrecorded⟩

namespace Eval

variable {n : NodeId} {s : State} {setting : Setting} {Γ : Scopes}

/-- Declaring a class whose superclass is known is safe. -/
theorem safe_declareMethods {name : Name} (parent : Option Class) {ds : List FunctionDecl}
    (hs : s.Sound n) (hmatches : s.Matches s.current Γ) (hparent : ∀ c ∈ parent, c.Sound n s)
    (hstable : Scopes.Stable
      (Scopes.receiverScope :: methodScopes parent (Γ.introducing name.text)))
    (hsetting : setting.FitsIn
      (Scopes.receiverScope :: methodScopes parent (Γ.introducing name.text)))
    (hformed : FunctionDecl.FormedAll ds)
    (hfits : Fits n s.distances
      (FunctionDecl.ObeysAll setting
        (Scopes.receiverScope :: methodScopes parent (Γ.introducing name.text)) ds)
      (FunctionDecl.recordsAll
        (Scopes.receiverScope :: methodScopes parent (Γ.introducing name.text)) ds)) :
    Safe n s (do
      define name.text .nil
      let closure ← methodScope parent
      let methods ← makeMethods closure ds
      let id ← freshIdentity
      define name.text (.cls (.extending ⟨id, name.text, methods⟩ parent)))
      fun _ s' => s'.Matches s'.current (Γ.introducing name.text) := by
  let s₁ : State := { s with store := s.store.define s.current name.text .nil }
  have hs₁ : s₁.Sound n := hs.define_of_sound trivial
  have hdefine : s.Grows s₁ := .of_store .define
  have hmatches₁ : s₁.Matches s₁.current (Γ.introducing name.text) := hmatches.define
  have hparent₁ : ∀ c ∈ parent, c.Sound n s₁ := fun c hc =>
    (hparent c hc).mono (Nat.le_refl n) (.of_grows hdefine)
  refine .bind_of_ok (t := s₁) rfl ?_
  refine (safe_methodScope hs₁ hmatches₁ hparent₁).bind (keeps_methodScope _) ?_
  intro closure s₂ hgrows₂ hs₂ hclosure
  refine (safe_makeMethods hs₂).bind (keeps_makeMethods _ _) ?_
  intro methods s₃ hgrows₃ hs₃ hmethods
  let c : Class := .extending ⟨s₃.nextIdentity, name.text, methods⟩ parent
  let s₄ : State := { s₃ with nextIdentity := s₃.nextIdentity + 1 }
  let s₅ : State := { s₄ with store := s₃.store.define s₃.current name.text (.cls c) }
  have hs₄ : s₄.Sound n := hs₃.of_same rfl rfl rfl rfl
  have hgrows₅ : s₃.Grows s₅ := ⟨rfl, rfl, rfl, rfl, rfl, .define⟩
  have hown (x : String) (f : Function) (hf : methods.get? x = some f) : f.SoundMethod n s₅ := by
    obtain ⟨hf, hmem⟩ := hmethods x f hf
    refine ⟨_, methodScopes parent (Γ.introducing name.text), ?_,
      FunctionDecl.knownIn_of_mem hmem hstable hsetting hformed ?_⟩
    · rw [hf]
      exact hclosure.mono (.of_grows (n := n) (hgrows₃.trans hgrows₅))
    · exact hfits.later (hdefine.trans (hgrows₂.trans (hgrows₃.trans hgrows₅)))
  have hc : c.Sound n s₅ := by
    cases parent with
    | none =>
        intro layer hlayer
        rw [List.mem_singleton.mp hlayer]
        exact hown
    | some superclass =>
        refine List.forall_mem_cons.mpr ⟨hown, ?_⟩
        exact (hparent₁ superclass rfl).mono (Nat.le_refl n)
          (.of_grows (hgrows₂.trans (hgrows₃.trans hgrows₅)))
  refine .of_ok (t := s₅) rfl (hs₄.define (v := .cls c) hc) ?_
  have hgrows : s₁.Grows s₅ := hgrows₂.trans (hgrows₃.trans hgrows₅)
  rw [hgrows.current_eq]
  exact hmatches₁.mono (.of_grows (n := n) hgrows)

/-- Declaring a class is safe. -/
theorem safe_declareClass {name : Name} {ref : Option Reference} {ds : List FunctionDecl}
    (hs : s.SoundAt n setting Γ) (hopen : Γ.Open) (hformed : (Stmt.classDef name ref ds).Formed)
    (hfits : Fits n s.distances ((Stmt.classDef name ref ds).Obeys setting Γ)
      ((Stmt.classDef name ref ds).records Γ)) :
    Safe n s (declareClass name ref ds) fun _ s' =>
      s'.Matches s'.current (Γ.introducing name.text) := by
  obtain ⟨hname, hformedMethods⟩ := hformed
  have hstable := (hopen.introducing hname).toStable
  cases ref with
  | none =>
      obtain ⟨⟨_, hobeys⟩, hrecorded⟩ := hfits
      have hsetting : Setting.FitsIn { setting with classKind := .plain }
          (Scopes.receiverScope :: Γ.introducing name.text) := fun h => nomatch h
      exact safe_declareMethods none hs.sound hs.matches (fun _ h => (nomatch h))
        hstable.methods hsetting hformedMethods ⟨hobeys, hrecorded⟩
  | some ref =>
      obtain ⟨⟨_, hne, hreadable, hobeys⟩, hrecorded⟩ := hfits
      obtain ⟨⟨_, hrecord⟩, hrecorded⟩ := Recorded.cons hrecorded
      -- The class is declared before its superclass is looked up by name, yet bound after it.
      have hlocate : s.distances[ref.id]? = Γ.locate? ref.name.text :=
        hrecord.trans (Scopes.locate?_introducing_of_ne hne)
      have hsuperclass := safe_superclass hs
        ((Scopes.readable_introducing_of_ne hne).mp hreadable) hlocate
      have hparent : Safe n s (some <$> superclass ref) fun parent s' =>
          ∃ c, parent = some c ∧ c.Sound n s' :=
        Run.Ensures.map hsuperclass fun c s' hc => ⟨hc.1, c, rfl, hc.2⟩
      refine hparent.bind (keeps_superclass ref).map ?_
      rintro _ s₁ hgrows hs₁ ⟨c, rfl, hc⟩
      refine safe_declareMethods (some c) hs₁ (hs.later hgrows hs₁).matches ?_
        hstable.submethods ?_ hformedMethods (Fits.later ⟨hobeys, hrecorded⟩ hgrows)
      · rintro _ ⟨⟩
        exact hc
      · exact fun _ => ⟨Scopes.superclassScope, by simp [methodScopes], by decide⟩

/-- With a given fuel, running is safe. -/
structure SafeWith (n : NodeId) (fuel : Nat) : Prop where
  eval {s : State} {setting : Setting} {Γ : Scopes} (e : Expr) : s.SoundAt n setting Γ →
    Fits n s.distances (e.Obeys setting Γ) (e.records Γ) →
    Safe n s (Eval.eval fuel e) fun v s' => v.Sound n s'
  evalAll {s : State} {setting : Setting} {Γ : Scopes} (es : List Expr) : s.SoundAt n setting Γ →
    Fits n s.distances (Expr.ObeysAll setting Γ es) (Expr.recordsAll Γ es) →
    Safe n s (Eval.evalAll fuel es) fun vs s' => ∀ v ∈ vs, v.Sound n s'
  call {s : State} (callee : Value) (arguments : List Value) (line : Nat) : s.Sound n →
    callee.Sound n s → (∀ v ∈ arguments, v.Sound n s) →
    Safe n s (Eval.call fuel callee arguments line) fun v s' => v.Sound n s'
  invoke {s : State} (f : Function) (arguments : List Value) : s.Sound n → f.Sound n s →
    (∀ v ∈ arguments, v.Sound n s) → arguments.length = f.arity →
    Safe n s (Eval.invoke fuel f arguments) fun v s' => v.Sound n s'
  exec {s : State} {setting : Setting} {Γ : Scopes} (stmt : Stmt) : s.SoundAt n setting Γ →
    Γ.Open → stmt.Formed → Fits n s.distances (stmt.Obeys setting Γ) (stmt.records Γ) →
    Safe n s (Eval.exec fuel stmt) fun flow s' => flow.Sound n s' setting (stmt.after Γ)
  execAll {s : State} {setting : Setting} {Γ : Scopes} (stmts : List Stmt) :
    s.SoundAt n setting Γ → Γ.Open → Stmt.FormedAll stmts →
    Fits n s.distances (Stmt.ObeysAll setting Γ stmts) (Stmt.recordsAll Γ stmts) →
    Safe n s (Eval.execAll fuel stmts) fun flow s' =>
      flow.Sound n s' setting (Stmt.afterAll Γ stmts)

namespace SafeWith

variable {fuel : Nat}

theorem eval_succ (ih : SafeWith n fuel) (e : Expr) (hs : s.SoundAt n setting Γ)
    (he : Fits n s.distances (e.Obeys setting Γ) (e.records Γ)) :
    Safe n s (Eval.eval (fuel + 1) e) fun v s' => v.Sound n s' := by
  have hkeeps := keepsPlaceWith fuel
  cases e with
  | literal value =>
      refine .pure hs.sound ?_
      cases value <;> trivial
  | grouping inner => exact ih.eval inner hs he
  | unary op line operand =>
      refine (ih.eval operand hs he).bind (hkeeps.eval operand) ?_
      intro v s₁ _ hs₁ _
      exact safe_ofOperation hs₁ (plainResult_unary op v)
  | binary op line left right =>
      obtain ⟨hleft, hright⟩ := Fits.and he
      refine (ih.eval left hs hleft).bind (hkeeps.eval left) ?_
      intro v s₁ hgrows₁ hs₁ _
      refine (ih.eval right (hs.later hgrows₁ hs₁) (hright.later hgrows₁)).bind
        (hkeeps.eval right) ?_
      intro w s₂ _ hs₂ _
      exact safe_ofOperation hs₂ (plainResult_binary op v w)
  | logical op line left right =>
      obtain ⟨hleft, hright⟩ := Fits.and he
      refine (ih.eval left hs hleft).bind (hkeeps.eval left) ?_
      intro v s₁ hgrows₁ hs₁ hv
      cases hdecides : op.decides v with
      | true => exact .pure hs₁ hv
      | false => exact ih.eval right (hs.later hgrows₁ hs₁) (hright.later hgrows₁)
  | name ref => exact safe_read hs he.keeps (Recorded.cons he.recorded).1.2
  | assign ref value =>
      obtain ⟨hvalue, href⟩ := Recorded.append he.recorded
      refine (ih.eval value hs ⟨he.keeps, hvalue⟩).bind (hkeeps.eval value) ?_
      intro v s₁ hgrows₁ hs₁ hv
      have hrecord : s₁.distances[ref.id]? = Γ.locate? ref.name.text := by
        rw [hgrows₁.distances_eq]
        exact (Recorded.cons href).1.2
      refine (safe_assign (hs.later hgrows₁ hs₁) hrecord hv).bind (keeps_assign ref v) ?_
      intro _ s₂ hgrows₂ hs₂ _
      exact .pure hs₂ (hv.later hgrows₂)
  | call callee line arguments =>
      obtain ⟨hcallee, harguments⟩ := Fits.and he
      refine (ih.eval callee hs hcallee).bind (hkeeps.eval callee) ?_
      intro f s₁ hgrows₁ hs₁ hf
      refine (ih.evalAll arguments (hs.later hgrows₁ hs₁) (harguments.later hgrows₁)).bind
        (hkeeps.evalAll arguments) ?_
      intro vs s₂ hgrows₂ hs₂ hvs
      exact ih.call f vs line hs₂ (hf.later hgrows₂) hvs
  | get object name =>
      refine (ih.eval object hs he).bind (hkeeps.eval object) ?_
      intro v s₁ _ hs₁ hv
      cases v with
      | object o => exact safe_property hs₁ hv
      | _ => exact .fail hs₁ trivial
  | set object name value =>
      obtain ⟨hvalue, hobject⟩ := Fits.and he
      refine (ih.eval object hs hobject).bind (hkeeps.eval object) ?_
      intro v s₁ hgrows₁ hs₁ hv
      cases v with
      | object o =>
          refine (ih.eval value (hs.later hgrows₁ hs₁) (hvalue.later hgrows₁)).bind
            (hkeeps.eval value) ?_
          intro w s₂ _ hs₂ hw
          exact .bind_of_ok rfl
            (.pure (hs₂.setField hw) (hw.later (.of_store .setField)))
      | _ => exact .fail hs₁ trivial
  | receiver id line =>
      exact safe_read hs hs.nested.readable_receiver (Recorded.cons he.recorded).1.2
  | inherited id line method =>
      exact safe_inheritedMethod hs he.keeps (Recorded.cons he.recorded).1.2

theorem evalAll_succ (ih : SafeWith n fuel) (es : List Expr) (hs : s.SoundAt n setting Γ)
    (hes : Fits n s.distances (Expr.ObeysAll setting Γ es) (Expr.recordsAll Γ es)) :
    Safe n s (Eval.evalAll (fuel + 1) es) fun vs s' => ∀ v ∈ vs, v.Sound n s' := by
  have hkeeps := keepsPlaceWith fuel
  cases es with
  | nil => exact .pure hs.sound fun _ h => (List.not_mem_nil h).elim
  | cons e es =>
      obtain ⟨he, hes⟩ := Fits.and hes
      refine (ih.eval e hs he).bind (hkeeps.eval e) ?_
      intro v s₁ hgrows₁ hs₁ hv
      refine (ih.evalAll es (hs.later hgrows₁ hs₁) (hes.later hgrows₁)).bind (hkeeps.evalAll es) ?_
      intro vs s₂ hgrows₂ hs₂ hvs
      exact .pure hs₂ (List.forall_mem_cons.mpr ⟨hv.later hgrows₂, hvs⟩)

theorem call_succ (ih : SafeWith n fuel) (callee : Value) (arguments : List Value) (line : Nat)
    (hs : s.Sound n) (hcallee : callee.Sound n s) (harguments : ∀ v ∈ arguments, v.Sound n s) :
    Safe n s (Eval.call (fuel + 1) callee arguments line) fun v s' => v.Sound n s' := by
  have hkeeps := keepsPlaceWith fuel
  cases callee with
  | function f =>
      refine (safe_checkArity hs).bind (keeps_checkArity _ _ _) ?_
      intro _ s₁ hgrows₁ hs₁ harity
      exact ih.invoke f arguments hs₁ (Value.Sound.later (v := .function f) hcallee hgrows₁)
        (fun v hv => (harguments v hv).later hgrows₁) harity
  | cls c =>
      refine (safe_checkArity hs).bind (keeps_checkArity _ _ _) ?_
      intro _ s₁ hgrows₁ hs₁ harity
      let s₂ : State := { s₁ with store := s₁.store.addObject }
      let o : Object := ⟨s₁.store.nextObject, c⟩
      have hs₂ : s₂.Sound n := hs₁.addObject
      have hgrows₂ : s.Grows s₂ := hgrows₁.trans (.of_store .addObject)
      have ho : Value.Sound n s₂ (.object o) := Value.Sound.later (v := .cls c) hcallee hgrows₂
      refine .bind_of_ok (a := o) (t := s₂) rfl ?_
      cases hmethod : c.findMethod? initializerName with
      | none => exact .pure hs₂ ho
      | some method =>
          simp only
          refine (safe_bindMethod hs₂ (soundMethod_of_findMethod? ho hmethod) ho).bind
            (keeps_bindMethod _ _) ?_
          rintro f s₃ hgrows₃ hs₃ ⟨hf, hdeclaration⟩
          have harity' : arguments.length = f.arity := by
            rw [harity, Class.arity, hmethod, Function.arity, hdeclaration]
            rfl
          refine (ih.invoke f arguments hs₃ hf (fun v hv => ?_) harity').bind
            (hkeeps.invoke f arguments) ?_
          · exact (harguments v hv).later (hgrows₂.trans hgrows₃)
          · intro _ s₄ hgrows₄ hs₄ _
            exact .pure hs₄ (ho.later (hgrows₃.trans hgrows₄))
  | native f =>
      refine (safe_checkArity hs).bind (keeps_checkArity _ _ _) ?_
      intro _ s₁ _ hs₁ _
      exact safe_askHost hs₁
  | _ => exact .fail hs trivial

/-- The scope of a call matches the scope of the body of the function, in which its parameters are
declared. -/
theorem invoke_succ (ih : SafeWith n fuel) (f : Function) (arguments : List Value)
    (hs : s.Sound n) (hf : f.Sound n s) (harguments : ∀ v ∈ arguments, v.Sound n s)
    (harity : arguments.length = f.arity) :
    Safe n s (Eval.invoke (fuel + 1) f arguments) fun v s' => v.Sound n s' := by
  obtain ⟨setting, Γ, hat, hopen, hformed, hfits⟩ := hf.exists_soundAt hs harguments harity
  let s₁ : State := { s with store := s.store.addEnv (some f.closure) }
  let names := f.declaration.parameters.map Name.text
  let s₂ : State := { s₁ with store := s₁.store.defineAll s.store.nextEnv names arguments }
  have hgrows₂ : s.Grows s₂ := .of_store (Store.Extends.addEnv.trans .defineAll)
  refine .bind_of_ok (t := s₁) rfl (.bind_of_ok (t := s₂) rfl ?_)
  have hbody : Safe n s₂ (Eval.within s.store.nextEnv (Eval.execAll fuel f.declaration.body))
      fun flow s' => ∀ v line, flow = .returning v line → v.Sound n s' := by
    refine (ih.execAll f.declaration.body hat hopen hformed hfits).within ?_
    rintro flow s₃ hflow v line rfl
    exact hflow.1.mono (Nat.le_refl n) ⟨rfl, .refl _, .refl _ _⟩
  refine hbody.bind (keeps_within ((keepsPlaceWith fuel).execAll _)) ?_
  intro flow s₃ hgrows₃ hs₃ hflow
  cases hkind : f.isInitializer with
  | true =>
      simp only [if_true]
      have hbinds := (hgrows₂.trans hgrows₃).store_extends.binds (hf.2 hkind)
      exact safe_readAt hs₃ (d := 0) rfl hbinds
  | false =>
      simp only [Bool.false_eq_true, if_false]
      cases flow with
      | normal => exact .pure hs₃ trivial
      | returning v line => exact .pure hs₃ (hflow v line rfl)

/-- A condition decides between two ways to go on. -/
theorem condition (ih : SafeWith n fuel) {condition : Expr} {m m' : Eval Flow}
    {Q : Flow → State → Prop} (hs : s.SoundAt n setting Γ)
    (hcondition : Fits n s.distances (condition.Obeys setting Γ) (condition.records Γ))
    (hthen : ∀ s', s.Grows s' → s'.SoundAt n setting Γ → Safe n s' m Q)
    (helse : ∀ s', s.Grows s' → s'.SoundAt n setting Γ → Safe n s' m' Q) :
    Safe n s (Eval.eval fuel condition >>= fun v => if v.isTruthy then m else m') Q := by
  refine (ih.eval condition hs hcondition).bind ((keepsPlaceWith fuel).eval condition) ?_
  intro v s₁ hgrows₁ hs₁ _
  cases v.isTruthy with
  | true => exact hthen s₁ hgrows₁ (hs.later hgrows₁ hs₁)
  | false => exact helse s₁ hgrows₁ (hs.later hgrows₁ hs₁)

/-- A statement that declares nothing leaves the scopes around it as they are. -/
theorem exec_of_not_declares (ih : SafeWith n fuel) {stmt : Stmt} (hs : s.SoundAt n setting Γ)
    (hopen : Γ.Open) (hformed : stmt.Formed) (hdeclares : stmt.declares = false)
    (hfits : Fits n s.distances (stmt.Obeys setting Γ) (stmt.records Γ)) :
    Safe n s (Eval.exec fuel stmt) fun flow s' => flow.Sound n s' setting Γ := by
  have h := ih.exec stmt hs hopen hformed hfits
  rwa [stmt.after_eq_self hformed hdeclares] at h

theorem exec_var (ih : SafeWith n fuel) {name : Name} {initial : Option Expr}
    (hs : s.SoundAt n setting Γ) (hopen : Γ.Open) (hformed : (Stmt.var name initial).Formed)
    (hfits : Fits n s.distances ((Stmt.var name initial).Obeys setting Γ)
      ((Stmt.var name initial).records Γ)) :
    Safe n s (Eval.exec (fuel + 1) (.var name initial)) fun flow s' =>
      flow.Sound n s' setting (Γ.introducing name.text) := by
  obtain ⟨⟨_, hobeys⟩, hrecorded⟩ := hfits
  have hdefine {s₁ : State} {v : Value} (hgrows₁ : s.Grows s₁) (hs₁ : s₁.Sound n)
      (hv : v.Sound n s₁) : Safe n s₁ (do define name.text v; return Flow.normal)
        fun flow s' => flow.Sound n s' setting (Γ.introducing name.text) :=
    .bind_of_ok rfl (.pure (hs₁.define_of_sound hv) (hs.later hgrows₁ hs₁).matches.define)
  cases initial with
  | none => exact hdefine (.refl s) hs.sound trivial
  | some e =>
      refine (ih.eval e (hs.declaring hopen hformed) ⟨hobeys, hrecorded⟩).bind
        ((keepsPlaceWith fuel).eval e) ?_
      intro v s₁ hgrows₁ hs₁ hv
      exact hdefine hgrows₁ hs₁ hv

/-- Behind a block, the scope that it was executed in is left again. -/
theorem exec_block (ih : SafeWith n fuel) {body : List Stmt} (hs : s.SoundAt n setting Γ)
    (hopen : Γ.Open) (hformed : (Stmt.block body).Formed)
    (hfits : Fits n s.distances ((Stmt.block body).Obeys setting Γ)
      ((Stmt.block body).records Γ)) :
    Safe n s (Eval.exec (fuel + 1) (.block body)) fun flow s' => flow.Sound n s' setting Γ := by
  let s₁ : State := { s with store := s.store.addEnv (some s.current) }
  have hgrows₁ : s.Grows s₁ := .of_store .addEnv
  refine .bind_of_ok (a := s.current) rfl (.bind_of_ok (t := s₁) rfl ?_)
  have hbody : Safe n s₁ (Eval.within s.store.nextEnv (Eval.execAll fuel body))
      fun flow s' => ∀ v line, flow = .returning v line →
        v.Sound n s' ∧ setting.body ≠ .topLevel := by
    refine (ih.execAll body (hs.block hopen) hopen.toStable.block hformed hfits).within ?_
    rintro flow s₂ hflow v line rfl
    exact ⟨hflow.1.mono (Nat.le_refl n) ⟨rfl, .refl _, .refl _ _⟩, hflow.2⟩
  refine (hbody.grows (keeps_within ((keepsPlaceWith fuel).execAll body))).mono ?_
  rintro flow s₂ hs₂ ⟨hgrows₂, hflow⟩
  cases flow with
  | normal => exact (hs.later (hgrows₁.trans hgrows₂) hs₂).matches
  | returning v line => exact hflow v line rfl

theorem exec_ifElse (ih : SafeWith n fuel) {condition : Expr} {thenBranch elseBranch : Stmt}
    (hs : s.SoundAt n setting Γ) (hopen : Γ.Open)
    (hformed : (Stmt.ifElse condition thenBranch elseBranch).Formed)
    (hfits : Fits n s.distances ((Stmt.ifElse condition thenBranch elseBranch).Obeys setting Γ)
      ((Stmt.ifElse condition thenBranch elseBranch).records Γ)) :
    Safe n s (Eval.exec (fuel + 1) (.ifElse condition thenBranch elseBranch)) fun flow s' =>
      flow.Sound n s' setting Γ := by
  obtain ⟨hcondition, hthen, helse⟩ := hfits.branches hformed
  obtain ⟨⟨hthenDeclares, hthenFormed⟩, helseDeclares, helseFormed⟩ := hformed
  refine ih.condition hs hcondition ?_ ?_
  · intro s₁ hgrows₁ hs₁
    exact ih.exec_of_not_declares hs₁ hopen hthenFormed hthenDeclares (hthen.later hgrows₁)
  · intro s₁ hgrows₁ hs₁
    exact ih.exec_of_not_declares hs₁ hopen helseFormed helseDeclares (helse.later hgrows₁)

/-- A loop goes round once, and then it is a loop with less fuel. -/
theorem exec_loop (ih : SafeWith n fuel) {condition : Expr} {body : Stmt}
    (hs : s.SoundAt n setting Γ) (hopen : Γ.Open) (hformed : (Stmt.loop condition body).Formed)
    (hfits : Fits n s.distances ((Stmt.loop condition body).Obeys setting Γ)
      ((Stmt.loop condition body).records Γ)) :
    Safe n s (Eval.exec (fuel + 1) (.loop condition body)) fun flow s' =>
      flow.Sound n s' setting Γ := by
  obtain ⟨hcondition, hbody⟩ := Fits.and hfits
  refine ih.condition hs hcondition ?_ fun _ _ hs₁ => .pure hs₁.sound hs₁.matches
  intro s₁ hgrows₁ hs₁
  refine (ih.exec body hs₁ hopen hformed.2 (hbody.later hgrows₁)).bind
    ((keepsPlaceWith fuel).exec body) ?_
  intro flow s₂ hgrows₂ hs₂ hflow
  cases flow with
  | returning w line => exact .pure hs₂ hflow
  | normal =>
      exact ih.exec_of_not_declares (hs₁.later hgrows₂ hs₂) hopen hformed rfl
        ((hfits.later hgrows₁).later hgrows₂)

theorem exec_function {d : FunctionDecl} (hs : s.SoundAt n setting Γ) (hopen : Γ.Open)
    (hformed : (Stmt.function d).Formed)
    (hfits : Fits n s.distances ((Stmt.function d).Obeys setting Γ)
      ((Stmt.function d).records Γ)) :
    Safe n s (Eval.exec (fuel + 1) (.function d)) fun flow s' =>
      flow.Sound n s' setting (Γ.introducing d.name.text) := by
  obtain ⟨⟨_, hobeys⟩, hrecorded⟩ := hfits
  let s₁ : State := { s with nextIdentity := s.nextIdentity + 1 }
  let f : Function := ⟨s.nextIdentity, d, s.current, false⟩
  let s₂ : State := { s₁ with store := s.store.define s.current d.name.text (.function f) }
  have hname : Ordinary d.name.text := by
    cases d with
    | mk name parameters body => exact hformed.1
  have hs₁ : s₁.Sound n := hs.sound.of_same rfl rfl rfl rfl
  have hmatches₁ : s₁.Matches s.current Γ := hs.matches.mono (n := n) ⟨rfl, .refl _, .refl _ _⟩
  have hmatches₂ : s₂.Matches s.current (Γ.introducing d.name.text) := hmatches₁.define
  have hf : f.Sound n s₂ :=
    ⟨⟨{ setting with body := .function }, _, hmatches₂, (hopen.introducing hname).toStable,
      Setting.FitsIn.introducing hs.setting_fits, fun h => (nomatch h), hformed,
      ⟨hobeys, hrecorded⟩⟩, fun h => nomatch h⟩
  exact .bind_of_ok (t := s₁) rfl (.bind_of_ok rfl (.bind_of_ok (t := s₂) rfl
    (.pure (hs₁.define (v := .function f) hf) hmatches₂)))

theorem exec_succ (ih : SafeWith n fuel) (stmt : Stmt) (hs : s.SoundAt n setting Γ)
    (hopen : Γ.Open) (hformed : stmt.Formed)
    (hfits : Fits n s.distances (stmt.Obeys setting Γ) (stmt.records Γ)) :
    Safe n s (Eval.exec (fuel + 1) stmt) fun flow s' =>
      flow.Sound n s' setting (stmt.after Γ) := by
  have hkeeps := keepsPlaceWith fuel
  cases stmt with
  | expression e =>
      refine (ih.eval e hs hfits).bind (hkeeps.eval e) ?_
      intro v s₁ hgrows₁ hs₁ _
      refine .bind_of_ok rfl (.pure (hs₁.of_same rfl rfl rfl rfl) ?_)
      exact (hs.later hgrows₁ hs₁).matches.mono (n := n) ⟨rfl, .refl _, .refl _ _⟩
  | print e =>
      refine (ih.eval e hs hfits).bind (hkeeps.eval e) ?_
      intro v s₁ hgrows₁ hs₁ _
      refine (safe_emit hs₁).bind (keeps_emit _) ?_
      intro _ s₂ hgrows₂ hs₂ _
      exact .pure hs₂ (hs.later (hgrows₁.trans hgrows₂) hs₂).matches
  | var name initial => exact ih.exec_var hs hopen hformed hfits
  | block body => exact ih.exec_block hs hopen hformed hfits
  | ifThen condition thenBranch =>
      rw [Stmt.after_eq_self _ hformed rfl]
      obtain ⟨hcondition, hthen⟩ := Fits.and hfits
      refine ih.condition hs hcondition ?_ fun _ _ hs₁ => .pure hs₁.sound hs₁.matches
      intro s₁ hgrows₁ hs₁
      exact ih.exec_of_not_declares hs₁ hopen hformed.2 hformed.1 (hthen.later hgrows₁)
  | ifElse condition thenBranch elseBranch =>
      rw [Stmt.after_eq_self _ hformed rfl]
      exact ih.exec_ifElse hs hopen hformed hfits
  | loop condition body =>
      rw [Stmt.after_eq_self _ hformed rfl]
      exact ih.exec_loop hs hopen hformed hfits
  | function d => exact exec_function hs hopen hformed hfits
  | giveBack line value =>
      obtain ⟨⟨hbody, _, hobeys⟩, hrecorded⟩ := hfits
      cases value with
      | none => exact .pure hs.sound ⟨trivial, hbody⟩
      | some e =>
          refine (ih.eval e hs ⟨hobeys, hrecorded⟩).bind (hkeeps.eval e) ?_
          intro v s₁ _ hs₁ hv
          exact .pure hs₁ ⟨hv, hbody⟩
  | classDef name superclass methods =>
      refine (safe_declareClass hs hopen hformed hfits).bind (keeps_declareClass _ _ _) ?_
      intro _ s₁ _ hs₁ hmatches
      exact .pure hs₁ hmatches

theorem execAll_succ (ih : SafeWith n fuel) (stmts : List Stmt) (hs : s.SoundAt n setting Γ)
    (hopen : Γ.Open) (hformed : Stmt.FormedAll stmts)
    (hfits : Fits n s.distances (Stmt.ObeysAll setting Γ stmts) (Stmt.recordsAll Γ stmts)) :
    Safe n s (Eval.execAll (fuel + 1) stmts) fun flow s' =>
      flow.Sound n s' setting (Stmt.afterAll Γ stmts) := by
  cases stmts with
  | nil => exact .pure hs.sound hs.matches
  | cons stmt stmts =>
      obtain ⟨hformedFirst, hformedRest⟩ := hformed
      obtain ⟨hfirst, hrest⟩ := Fits.and hfits
      refine (ih.exec stmt hs hopen hformedFirst hfirst).bind ((keepsPlaceWith fuel).exec stmt) ?_
      intro flow s₁ hgrows₁ hs₁ hflow
      cases flow with
      | returning v line => exact .pure hs₁ hflow
      | normal =>
          have hopen' := stmt.open_after hformedFirst hopen
          exact ih.execAll stmts ⟨hs₁, hflow, hopen'.nested,
            stmt.fitsIn_after hformedFirst hs.setting_fits⟩ hopen' hformedRest
            (hrest.later hgrows₁)

end SafeWith

/-- Running is safe, however much fuel there is. -/
theorem safeWith (n : NodeId) (fuel : Nat) : SafeWith n fuel := by
  induction fuel with
  | zero => constructor <;> intros <;> exact .outOfFuel
  | succ fuel ih =>
      exact {
        eval := ih.eval_succ
        evalAll := ih.evalAll_succ
        call := ih.call_succ
        invoke := ih.invoke_succ
        exec := ih.exec_succ
        execAll := ih.execAll_succ }

theorem safe_echo {stmt : Stmt} (hs : s.Sound n) : Safe n s (echo stmt) fun _ _ => True := by
  refine .bind_of_ok (Run.get_apply s) ?_
  cases stmt with
  | expression e =>
      simp only
      cases s.echo with
      | true => exact safe_emit hs
      | false => exact .pure hs trivial
  | _ => exact .pure hs trivial

/-- Running a program at the top level is safe. -/
theorem safe_runProgram (fuel : Nat) {program : List Stmt} (hs : s.Sound n)
    (hcurrent : s.current = s.globals) (hformed : Stmt.FormedAll program)
    (hfits : Fits n s.distances (Stmt.ObeysAll ⟨.topLevel, .outside⟩ [] program)
      (Stmt.recordsAll [] program)) : Safe n s (runProgram fuel program) fun _ _ => True := by
  induction program generalizing s with
  | nil => exact .pure hs trivial
  | cons stmt stmts ih =>
      obtain ⟨hformedFirst, hformedRest⟩ := hformed
      obtain ⟨hfirst, hrest⟩ := Fits.and hfits
      have hat : s.SoundAt n ⟨.topLevel, .outside⟩ [] :=
        ⟨hs, hcurrent, .top, fun h => nomatch h⟩
      refine ((safeWith n fuel).exec stmt hat Scopes.open_top hformedFirst hfirst).bind
        ((keepsPlaceWith fuel).exec stmt) ?_
      intro flow s₁ hgrows₁ hs₁ hflow
      cases flow with
      | returning v line => exact (hflow.2 rfl).elim
      | normal =>
          refine (safe_echo hs₁).bind (keeps_echo stmt) ?_
          intro _ s₂ hgrows₂ hs₂ _
          have hgrows := hgrows₁.trans hgrows₂
          rw [stmt.after_nil] at hrest
          refine ih hs₂ ?_ hformedRest (hrest.later hgrows)
          rw [hgrows.current_eq, hcurrent, hgrows.globals_eq]

end Eval

end ScopedScript
