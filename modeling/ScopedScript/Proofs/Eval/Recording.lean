import ScopedScript.Proofs.Eval.Standing
import ScopedScript.Proofs.Eval.Telling

/-!
# Runs keep the record true

Where a program obeys the rules of scoping and what is found for its references is known, all that
happens in a run of it is true when it goes on record and stays so, however much fuel the run is
given.
-/

namespace ScopedScript

/-- What the value that is returned has an identity in is on record. -/
def Flow.From (h : List Moment) : Flow → Prop
  | .normal => True
  | .returning v _ => v.From h

/-- A call of an initializer that was made for an object gives that object. -/
def YieldsReceiver (h : List Moment) (f : Function) (v : Value) : Prop :=
  f.isInitializer = true → ∀ method o, Happened h (.binds method f o) → v = .object o

theorem Store.plainIn_addEnv {st : Store} {outer : EnvId} :
    (st.addEnv (some outer)).PlainIn outer st.nextEnv where
  enclosing := enclosing?_addEnv_nextEnv
  plain x hx := by
    unfold Binds at hx
    rw [binding?_addEnv, binding?_nextEnv] at hx
    cases hx

namespace Eval

variable {n : NodeId} {h : List Moment} {s : State} {setting : Setting} {Γ : Scopes}

theorem tells_methodScope {parent : Option Class} (hs : Chronicle n h s)
    (hparent : ∀ c ∈ parent, c.From h) :
    Tells n h s .none (methodScope parent) fun _ closure s' =>
      s'.store.HasEnv closure ∧ s'.nextIdentity = s.nextIdentity ∧
        ∀ c ∈ parent, s'.store.binding? closure superclassWord = some (.cls c) := by
  cases parent with
  | none => exact .of_ok rfl hs ⟨hs.current, rfl, fun _ hc => by cases hc⟩
  | some c =>
      have hc : (Value.cls c).From h := hparent c rfl
      refine .of_ok (t := { s with
        store := (s.store.addEnv (some s.current)).define s.store.nextEnv superclassWord (.cls c) })
        rfl (hs.addEnv_define hs.current hc) ⟨?_, rfl, ?_⟩
      · exact Store.hasEnv_define.mpr Store.hasEnv_nextEnv
      · rintro _ ⟨⟩
        exact Store.binding?_define_self Store.hasEnv_nextEnv

/-- A class declaration makes a class as it says. -/
theorem tells_makeClass {d : ClassDeclaration} {parent : Option Class} (hs : Chronicle n h s)
    (hexecuted : ⟨.executes d.stmt, d.state⟩ ∈ h)
    (hparent : parentOf d.superclass d.state = .ok parent d.state)
    (hfrom : ∀ c ∈ parent, c.From h)
    (hready : ∀ decl ∈ d.methods, ∃ setting Γ,
      decl.ReadyIn n s.distances setting (Scopes.receiverScope :: Γ) ∧
        (setting.classKind = .subclass → parent.isSome = true ∧
          Scopes.locate? Γ superclassWord = some 0)) :
    Tells n h s .none (makeClass d.name parent d.methods) fun h' c s' =>
      c.Derived n h' s' d parent := by
  refine (tells_methodScope hs hfrom).bind_quiet (keeps_methodScope _) ?_
  rintro h₁ closure s₁ hsub hgrows hs₁ ⟨hclosure, hid, hinherits⟩
  refine .quiet ((ensures_makeMethods.mono (fun _ _ hend => hend)
    (fun _ _ hfalse => hfalse.elim)).bind ?_)
  rintro methods _ ⟨⟨id, hle, rfl⟩, hmethods, hlast⟩
  let c : Class := .extending ⟨id, d.name.text, methods⟩ parent
  let s₂ : State := { s₁ with nextIdentity := id + 1 }
  have hown : c.own = ⟨id, d.name.text, methods⟩ := Class.own_extending _ _
  have hs₂ : Chronicle n h₁ s₂ :=
    hs₁.of_same rfl rfl rfl rfl (Nat.le_succ_of_le hle) hs₁.current hs₁.last
  refine .of_ok (t := s₂) (a := c) rfl ⟨hs₂, hsub hexecuted, hparent, ?_, ?_, ?_, ?_, ?_⟩
  · intro superclass hsuper
    obtain ⟨d', parent', hderives⟩ := hfrom superclass hsuper
    have hlt : superclass.own.id < s.nextIdentity := (hs.derived hderives).id_lt
    rw [hown]
    exact ⟨Class.From.mono hsub ⟨d', parent', hderives⟩, Nat.lt_of_lt_of_le hlt (hid ▸ hle)⟩
  · rw [hown]
  · rw [hown]
    exact Nat.lt_succ_self id
  · rwa [hown]
  · rintro f ⟨x, hx⟩
    rw [hown] at hx
    obtain ⟨hf, hmem, hinitializer⟩ := hmethods x f hx
    rw [← hf] at hclosure hinherits
    obtain ⟨setting, Γ, hdecl, hsuper⟩ := hready f.declaration hmem
    rw [← hgrows.distances_eq] at hdecl
    exact ⟨hclosure, hinitializer, hinherits, setting, Γ, hdecl, hsuper⟩

theorem keeps_parentOf (ref : Option Reference) : KeepsPlace (parentOf ref) := by
  cases ref with
  | none => exact keeps_pure _
  | some ref => exact (keeps_superclass ref).map

theorem keeps_makeClass (name : Name) (parent : Option Class) (ds : List FunctionDecl) :
    KeepsPlace (makeClass name parent ds) :=
  (keeps_methodScope _).bind fun _ => (keeps_makeMethods _ _).bind fun _ =>
    keeps_freshIdentity.bind fun _ => keeps_pure _

/-- Declaring a class puts it on record. -/
theorem tells_declareClass {d : ClassDeclaration} (hs : Chronicle n h s) (hd : d.state = s)
    (hexecuted : ⟨.executes d.stmt, d.state⟩ ∈ h)
    (hname : Ordinary d.name.text)
    (hready : ∀ decl ∈ d.methods, ∃ setting Γ,
      decl.ReadyIn n s.distances setting (Scopes.receiverScope :: Γ) ∧
        (setting.classKind = .subclass → d.superclass.isSome = true ∧
          Scopes.locate? Γ superclassWord = some 0)) :
    Tells n h s (classMoments d) (declareClass d.name d.superclass d.methods)
      fun _ _ _ => True := by
  rw [declareClass_eq]
  refine (tells_parentOf hs).after (keeps_parentOf _) ?_
  rintro h₁ parent s₁ hsub₁ _ hs₁ ⟨hparent, rfl, hsome, hfrom⟩
  refine .after_of_ok rfl ?_
  refine (tells_makeClass (hs₁.define (v := .nil) hname trivial) (hsub₁ hexecuted)
    (by rwa [hd]) hfrom ?_).after
    (keeps_makeClass _ _ _) ?_
  · rwa [hsome]
  · intro h₂ c s₂ _ _ hs₂ hderived
    let event : Event := .derives d parent c
    have hsub : h₂ ⊆ h₂ ++ [⟨event, s₂⟩] := List.subset_append_left _ _
    have hmark : Chronicle n (h₂ ++ [⟨event, s₂⟩]) s₂ :=
      hs₂.mark (hderived.mono (Nat.le_refl n) hsub
        ⟨rfl, rfl, .refl _, .refl _ _, Nat.le_refl _⟩)
    have hc : (Value.cls c).From (h₂ ++ [⟨event, s₂⟩]) :=
      ⟨d, parent, _, List.mem_append_right h₂ List.mem_cons_self, rfl⟩
    exact .mark hmark (.of_ok rfl (hmark.define hname hc) trivial)

/-- Declaring a function puts it on record. -/
theorem tells_declareFunction {d : FunctionDecl} (hs : Chronicle n h s)
    (hname : Ordinary d.name.text)
    (hstands : Stands h setting Γ (FunctionDecl.direct d) s.current)
    (hready : d.ReadyIn n s.distances setting Γ) :
    Tells n h s (functionMoments d) (do
      let id ← freshIdentity
      let closure ← Run.gets State.current
      define d.name.text (.function ⟨id, d, closure, false⟩)
      return Flow.normal) fun _ flow _ => flow = .normal := by
  let f : Function := ⟨s.nextIdentity, d, s.current, false⟩
  let s₁ : State := { s with nextIdentity := s.nextIdentity + 1 }
  have hs₁ : Chronicle n h s₁ := hs.of_same rfl rfl rfl rfl (Nat.le_succ _) hs.current hs.last
  have hsub : h ⊆ h ++ [⟨.declares f, s₁⟩] := List.subset_append_left _ _
  have hdeclared : f.Declared n (h ++ [⟨.declares f, s₁⟩]) s₁ :=
    ⟨hs.current, rfl, setting, Γ, hstands.mono hsub, hready⟩
  have hmark : Chronicle n (h ++ [⟨.declares f, s₁⟩]) s₁ := hs₁.mark hdeclared
  have hf : (Value.function f).From (h ++ [⟨.declares f, s₁⟩]) :=
    Or.inl ⟨_, List.mem_append_right h List.mem_cons_self, rfl⟩
  refine .after_of_ok (t := s₁) rfl (.after_of_ok (t := s₁) rfl (.mark hmark ?_))
  exact .of_ok rfl (hmark.define hname hf) rfl

/-- With a given fuel, what happens in a run is true when it goes on record. -/
structure TellsWith (n : NodeId) (fuel : Nat) : Prop where
  eval {h : List Moment} {s : State} {setting : Setting} {Γ : Scopes} (e : Expr) :
    Chronicle n h s → Stands h setting Γ e.occurrences s.current →
    CodeIn n s.distances (e.Obeys setting Γ) (e.records Γ) e.occurrences →
    Tells n h s (evalMoments fuel e) (Eval.eval fuel e) fun h' v _ => v.From h'
  evalAll {h : List Moment} {s : State} {setting : Setting} {Γ : Scopes} (es : List Expr) :
    Chronicle n h s → Stands h setting Γ (Expr.occurrencesAll es) s.current →
    CodeIn n s.distances (Expr.ObeysAll setting Γ es) (Expr.recordsAll Γ es)
      (Expr.occurrencesAll es) →
    Tells n h s (evalAllMoments fuel es) (Eval.evalAll fuel es)
      fun h' vs _ => ∀ v ∈ vs, v.From h'
  call {h : List Moment} {s : State} (callee : Value) (arguments : List Value) (line : Nat) :
    Chronicle n h s → callee.From h → (∀ v ∈ arguments, v.From h) →
    Tells n h s (callMoments fuel callee arguments line) (Eval.call fuel callee arguments line)
      fun h' v _ => v.From h' ∧ ∀ f, callee = .function f → YieldsReceiver h' f v
  invoke {h : List Moment} {s : State} (f : Function) (arguments : List Value) :
    Chronicle n h s → f.From h → (∀ v ∈ arguments, v.From h) →
    Tells n h s (invokeMoments fuel f arguments) (Eval.invoke fuel f arguments)
      fun h' v _ => v.From h' ∧ YieldsReceiver h' f v
  exec {h : List Moment} {s : State} {setting : Setting} {Γ : Scopes} (stmt : Stmt) :
    Chronicle n h s → Stands h setting Γ stmt.direct s.current → stmt.Formed →
    CodeIn n s.distances (stmt.Obeys setting Γ) (stmt.records Γ) stmt.occurrences →
    Tells n h s (execMoments fuel stmt) (Eval.exec fuel stmt) fun h' flow _ => flow.From h'
  execAll {h : List Moment} {s : State} {setting : Setting} {Γ : Scopes} (stmts : List Stmt) :
    Chronicle n h s → Stands h setting Γ (Stmt.directAll stmts) s.current →
    Stmt.FormedAll stmts →
    CodeIn n s.distances (Stmt.ObeysAll setting Γ stmts) (Stmt.recordsAll Γ stmts)
      (Stmt.occurrencesAll stmts) →
    Tells n h s (execAllMoments fuel stmts) (Eval.execAll fuel stmts)
      fun h' flow _ => flow.From h'

namespace TellsWith

variable {fuel : Nat}

theorem eval_succ (ih : TellsWith n fuel) (e : Expr) (hs : Chronicle n h s)
    (hstands : Stands h setting Γ e.occurrences s.current)
    (hcode : CodeIn n s.distances (e.Obeys setting Γ) (e.records Γ) e.occurrences) :
    Tells n h s (evalMoments (fuel + 1) e) (Eval.eval (fuel + 1) e) fun h' v _ => v.From h' := by
  have hkeeps := keepsPlaceWith fuel
  have hsub : h ⊆ h ++ [⟨.evaluates e, s⟩] := List.subset_append_left _ _
  replace hstands := hstands.mono hsub
  replace hs : Chronicle n (h ++ [⟨.evaluates e, s⟩]) s :=
    hs.mark ⟨setting, Γ, hstands, hcode⟩
  refine .mark hs ?_
  clear hsub
  generalize h ++ [⟨.evaluates e, s⟩] = h at hs hstands
  cases e with
  | literal value =>
      refine .pure hs ?_
      cases value <;> trivial
  | grouping inner => exact ih.eval inner hs hstands hcode
  | unary op line operand =>
      refine (ih.eval operand hs hstands hcode).bind_quiet (hkeeps.eval operand) ?_
      intro h₁ v s₁ _ _ hs₁ _
      exact tells_ofOperation hs₁ fun _ => from_unary
  | binary op line left right =>
      obtain ⟨hleft, hright⟩ := hcode.and
      obtain ⟨hstandsLeft, hstandsRight⟩ := hstands.and
      refine (ih.eval left hs hstandsLeft hleft).bind (hkeeps.eval left) ?_
      intro h₁ v s₁ hsub₁ hgrows₁ hs₁ _
      refine (ih.eval right hs₁ (hstandsRight.later hsub₁ hgrows₁)
        (hright.later hgrows₁)).bind_quiet (hkeeps.eval right) ?_
      intro h₂ w s₂ _ _ hs₂ _
      exact tells_ofOperation hs₂ fun _ => from_binary
  | logical op line left right =>
      obtain ⟨hleft, hright⟩ := hcode.and
      obtain ⟨hstandsLeft, hstandsRight⟩ := hstands.and
      refine (ih.eval left hs hstandsLeft hleft).bind (hkeeps.eval left) ?_
      intro h₁ v s₁ hsub₁ hgrows₁ hs₁ hv
      cases hdecides : op.decides v with
      | true => exact .pure hs₁ hv
      | false =>
          exact ih.eval right hs₁ (hstandsRight.later hsub₁ hgrows₁) (hright.later hgrows₁)
  | name ref => exact tells_read hs
  | assign ref value =>
      obtain ⟨href, hplain⟩ := List.forall_mem_cons.mp hcode.plain
      have hvalue : CodeIn n s.distances (value.Obeys setting Γ) (value.records Γ)
          value.occurrences :=
        ⟨⟨hcode.fits.keeps, (Recorded.append hcode.fits.recorded).1⟩, hplain⟩
      have hstandsValue := hstands.of_subset (List.subset_cons_self _ _)
      refine (ih.eval value hs hstandsValue hvalue).bind_quiet (hkeeps.eval value) ?_
      intro h₁ v s₁ _ _ hs₁ hv
      refine (tells_assign hs₁ (href (Or.inr rfl)) hv).bind_quiet (keeps_assign ref v) ?_
      intro h₂ _ s₂ hsub₂ _ hs₂ _
      exact .pure hs₂ (hv.mono hsub₂)
  | call callee line arguments =>
      obtain ⟨hcallee, harguments⟩ := hcode.and
      obtain ⟨hstandsCallee, hstandsArguments⟩ := hstands.and
      refine (ih.eval callee hs hstandsCallee hcallee).bind (hkeeps.eval callee) ?_
      intro h₁ f s₁ hsub₁ hgrows₁ hs₁ hf
      refine (ih.evalAll arguments hs₁ (hstandsArguments.later hsub₁ hgrows₁)
        (harguments.later hgrows₁)).bind (hkeeps.evalAll arguments) ?_
      intro h₂ vs s₂ hsub₂ _ hs₂ hvs
      exact (ih.call f vs line hs₂ (hf.mono hsub₂) hvs).mono fun _ _ _ hend => hend.1
  | get object name =>
      refine (ih.eval object hs hstands hcode).bind (hkeeps.eval object) ?_
      intro h₁ v s₁ _ _ hs₁ hv
      cases v with
      | object o => exact tells_property hs₁ hv
      | _ => exact .fail hs₁
  | set object name value =>
      obtain ⟨hobject, hvalue⟩ := hcode.and_swap
      obtain ⟨hstandsObject, hstandsValue⟩ := hstands.and
      refine (ih.eval object hs hstandsObject hobject).bind (hkeeps.eval object) ?_
      intro h₁ v s₁ hsub₁ hgrows₁ hs₁ hv
      cases v with
      | object o =>
          refine (ih.eval value hs₁ (hstandsValue.later hsub₁ hgrows₁)
            (hvalue.later hgrows₁)).bind_quiet (hkeeps.eval value) ?_
          intro h₂ w s₂ _ _ hs₂ hw
          exact .bind_of_ok rfl (.pure (hs₂.setField hw) hw)
      | _ => exact .fail hs₁
  | receiver id line => exact tells_read hs
  | inherited id line method => exact tells_inheritedMethod hs

theorem evalAll_succ (ih : TellsWith n fuel) (es : List Expr) (hs : Chronicle n h s)
    (hstands : Stands h setting Γ (Expr.occurrencesAll es) s.current)
    (hcode : CodeIn n s.distances (Expr.ObeysAll setting Γ es) (Expr.recordsAll Γ es)
      (Expr.occurrencesAll es)) :
    Tells n h s (evalAllMoments (fuel + 1) es) (Eval.evalAll (fuel + 1) es)
      fun h' vs _ => ∀ v ∈ vs, v.From h' := by
  have hkeeps := keepsPlaceWith fuel
  cases es with
  | nil => exact .pure hs fun _ hv => (List.not_mem_nil hv).elim
  | cons e es =>
      obtain ⟨he, hes⟩ := hcode.and
      obtain ⟨hstandsFirst, hstandsRest⟩ := hstands.and
      refine (ih.eval e hs hstandsFirst he).bind (hkeeps.eval e) ?_
      intro h₁ v s₁ hsub₁ hgrows₁ hs₁ hv
      refine (ih.evalAll es hs₁ (hstandsRest.later hsub₁ hgrows₁)
        (hes.later hgrows₁)).bind_quiet (hkeeps.evalAll es) ?_
      intro h₂ vs s₂ hsub₂ _ hs₂ hvs
      exact .pure hs₂ (List.forall_mem_cons.mpr ⟨hv.mono hsub₂, hvs⟩)

theorem call_succ (ih : TellsWith n fuel) (callee : Value) (arguments : List Value) (line : Nat)
    (hs : Chronicle n h s) (hcallee : callee.From h) (harguments : ∀ v ∈ arguments, v.From h) :
    Tells n h s (callMoments (fuel + 1) callee arguments line)
      (Eval.call (fuel + 1) callee arguments line)
      fun h' v _ => v.From h' ∧ ∀ f, callee = .function f → YieldsReceiver h' f v := by
  have hkeeps := keepsPlaceWith fuel
  have hsub : h ⊆ h ++ [⟨.calls callee arguments line, s⟩] := List.subset_append_left _ _
  replace hcallee := hcallee.mono hsub
  replace harguments := fun v hv => (harguments v hv).mono hsub
  replace hs : Chronicle n (h ++ [⟨.calls callee arguments line, s⟩]) s :=
    hs.mark ⟨hcallee, harguments⟩
  refine .mark hs ?_
  clear hsub
  generalize h ++ [⟨.calls callee arguments line, s⟩] = h at hs hcallee harguments
  cases callee with
  | function f =>
      refine (tells_checkArity hs).after (keeps_checkArity _ _ _) ?_
      intro h₁ _ s₁ hsub₁ _ hs₁ _
      refine (ih.invoke f arguments hs₁ (Value.From.mono (v := .function f) hsub₁ hcallee)
        fun v hv => (harguments v hv).mono hsub₁).mono ?_
      rintro h' v _ ⟨hv, hyields⟩
      refine ⟨hv, ?_⟩
      rintro _ ⟨⟩
      exact hyields
  | cls c =>
      refine (tells_checkArity hs).after (keeps_checkArity _ _ _) ?_
      intro h₁ _ s₁ hsub₁ _ hs₁ _
      let o : Object := ⟨s₁.store.nextObject, c⟩
      let s₂ : State := { s₁ with store := s₁.store.addObject }
      have hc : c.From h₁ := Class.From.mono hsub₁ hcallee
      have hs₂ : Chronicle n (h₁ ++ [⟨.creates o, s₂⟩]) s₂ :=
        hs₁.addObject.mark Store.hasObject_nextObject
      have hsub₂ : h₁ ⊆ h₁ ++ [⟨.creates o, s₂⟩] := List.subset_append_left _ _
      have ho : (Value.object o).From (h₁ ++ [⟨.creates o, s₂⟩]) :=
        ⟨hc.mono hsub₂, _, List.mem_append_right h₁ List.mem_cons_self, rfl⟩
      refine .after_of_ok (a := o) (t := s₂) rfl (.mark hs₂ ?_)
      cases hmethod : c.findMethod? initializerName with
      | none => exact .pure hs₂ ⟨ho, fun _ h => nomatch h⟩
      | some method =>
          refine tells_bindMethod hs₂ (hs₂.exists_declares (hc.mono hsub₂) hmethod) ho ?_
          intro h₃ f s₃ hsub₃ _ hs₃ hbinds _
          refine (ih.invoke f arguments hs₃ (Or.inr ⟨method, o, hbinds⟩) fun v hv => ?_).bind_quiet
            (hkeeps.invoke f arguments) ?_
          · exact (harguments v hv).mono fun _ hm => hsub₃ (hsub₂ (hsub₁ hm))
          · intro h₄ _ s₄ hsub₄ _ hs₄ _
            exact .pure hs₄ ⟨ho.mono fun _ hm => hsub₄ (hsub₃ hm), fun _ h => nomatch h⟩
  | native g =>
      refine (tells_checkArity hs).bind_quiet (keeps_checkArity _ _ _) ?_
      intro h₁ _ s₁ _ _ hs₁ _
      exact (tells_askHost hs₁).mono fun _ _ _ hv => ⟨hv, fun _ h => nomatch h⟩
  | _ => exact .fail hs

/-- What happens while statements are executed in a scope is true when it goes on record, also after
the way back from it. -/
theorem execAll_within (ih : TellsWith n fuel) {scope : EnvId} (stmts : List Stmt)
    (hs : Chronicle n h s) (hscope : s.store.HasEnv scope)
    (hstands : Stands h setting Γ (Stmt.directAll stmts) scope) (hformed : Stmt.FormedAll stmts)
    (hcode : CodeIn n s.distances (Stmt.ObeysAll setting Γ stmts) (Stmt.recordsAll Γ stmts)
      (Stmt.occurrencesAll stmts)) :
    Tells n h s (.inScope scope (execAllMoments fuel stmts))
      (Eval.within scope (Eval.execAll fuel stmts)) fun h' flow _ => flow.From h' := by
  have hinside : Chronicle n h { s with current := scope } :=
    hs.of_same rfl rfl rfl rfl (Nat.le_refl _) hscope hs.last
  exact Tells.inScope (Q := fun h' flow _ => flow.From h') hs
    (ih.execAll stmts hinside hstands hformed hcode) ((keepsPlaceWith fuel).execAll stmts)
    fun _ _ _ hflow => hflow

/-- The scope of a call lies in the closure of the function and binds its parameters. -/
theorem invoke_succ (ih : TellsWith n fuel) (f : Function) (arguments : List Value)
    (hs : Chronicle n h s) (hf : f.From h) (harguments : ∀ v ∈ arguments, v.From h) :
    Tells n h s (invokeMoments (fuel + 1) f arguments) (Eval.invoke (fuel + 1) f arguments)
      fun h' v _ => v.From h' ∧ YieldsReceiver h' f v := by
  obtain ⟨hclosure, setting, Γ, hready, hstands⟩ := hs.exists_readyIn hf
  let scope := s.store.nextEnv
  let names := f.declaration.parameters.map Name.text
  let s₁ : State := { s with store := s.store.addEnv (some f.closure) }
  let s₂ : State := { s₁ with store := s₁.store.defineAll scope names arguments }
  have hordinary : ∀ x ∈ names, Ordinary x := by
    have hformed := hready.formed
    cases hd : f.declaration with
    | mk name parameters body =>
        rw [hd] at hformed
        intro x hx
        obtain ⟨p, hp, rfl⟩ := List.mem_map.mp hx
        rw [hd] at hp
        exact hformed.2.1 p hp
  have hs₂ : Chronicle n h s₂ := (hs.addEnv hclosure).defineAll hordinary harguments
  have hplain : s₂.store.PlainIn f.closure scope :=
    (Store.Keeps.defineAll hordinary).plainIn Store.plainIn_addEnv
  have hmark : Chronicle n (h ++ [⟨.enters f scope, s₂⟩]) s₂ := hs₂.mark hplain
  have hsub : h ⊆ h ++ [⟨.enters f scope, s₂⟩] := List.subset_append_left _ _
  have hinside := hstands _ scope hsub ⟨_, List.mem_append_right h List.mem_cons_self, rfl⟩
  refine .after_of_ok (t := s₁) rfl (.after_of_ok (t := s₂) rfl (.mark hmark ?_))
  have hbody : Tells n (h ++ [⟨.enters f scope, s₂⟩]) s₂
      (.inScope scope (execAllMoments fuel f.declaration.body))
      (Eval.within scope (Eval.execAll fuel f.declaration.body)) fun h' flow _ => flow.From h' := by
    cases hd : f.declaration with
    | mk name parameters body =>
        rw [hd] at hready hinside
        obtain ⟨⟨_, hparameters, hformed⟩, ⟨⟨⟨_, hobeys⟩, hrecorded⟩, hoccurrences⟩⟩ := hready
        refine ih.execAll_within body hmark (Store.hasEnv_of_enclosing? hplain.enclosing)
          (hinside.of_locate? fun w hw => ?_) hformed ⟨⟨hobeys, hrecorded⟩, hoccurrences⟩
        exact Scopes.locate?_introducingAll hw hparameters
  refine hbody.bind_quiet (keeps_within ((keepsPlaceWith fuel).execAll _)) ?_
  intro h₃ flow s₃ hsub₃ _ hs₃ hflow
  have hf₃ : f.From h₃ := Value.From.mono (v := .function f) (fun _ hm => hsub₃ (hsub hm)) hf
  cases hkind : f.isInitializer with
  | true =>
      simp only [if_true]
      obtain ⟨method, o, hbinds⟩ := hs₃.exists_binds hf₃ hkind
      have hbound := hs₃.boundTo hbinds
      have hread : s₃.store.lookupAt f.closure 0 receiverWord = .ok (.object o) := by
        simp only [Store.lookupAt, Store.ancestor?, hbound.receiver]
      refine .of_ok (readAt_of_lookupAt hread) hs₃ ⟨hbound.object, fun _ method' o' hbinds' => ?_⟩
      have hreceiver := (hs₃.boundTo hbinds').receiver
      rw [hbound.receiver] at hreceiver
      exact Option.some.inj hreceiver
  | false =>
      simp only [Bool.false_eq_true, if_false]
      have hyields (v : Value) : YieldsReceiver h₃ f v := fun hinitializer => by
        rw [hkind] at hinitializer
        cases hinitializer
      cases flow with
      | normal => exact .pure hs₃ ⟨trivial, hyields _⟩
      | returning v line => exact .pure hs₃ ⟨hflow, hyields _⟩

/-- Before anything happens in a statement, it is on record that it is executed. -/
theorem tells_executes {α : Type} {m : Eval α} {moments : Moments}
    {Q : List Moment → α → State → Prop} {occurrences : List Occurrence} (stmt : Stmt)
    (hs : Chronicle n h s) (hstands : Stands h setting Γ occurrences s.current)
    (hm : ∀ h', ⟨.executes stmt, s⟩ ∈ h' → Chronicle n h' s →
      Stands h' setting Γ occurrences s.current → Tells n h' s moments m Q) :
    Tells n h s (moments.mark (.executes stmt)) m Q := by
  have hmark : Chronicle n (h ++ [⟨.executes stmt, s⟩]) s := hs.mark trivial
  exact .mark hmark (hm _ (List.mem_append_right h List.mem_cons_self) hmark
    (hstands.mono (List.subset_append_left _ _)))

/-- A condition decides between two ways to go on. -/
theorem condition (ih : TellsWith n fuel) {condition : Expr} {m m' : Eval Flow}
    {moments moments' : Moments} {Q : List Moment → Flow → State → Prop} (hs : Chronicle n h s)
    (hstands : Stands h setting Γ condition.occurrences s.current)
    (hcode : CodeIn n s.distances (condition.Obeys setting Γ) (condition.records Γ)
      condition.occurrences)
    (hthen : ∀ h' s', h ⊆ h' → s.Grows s' → Chronicle n h' s' → Tells n h' s' moments m Q)
    (helse : ∀ h' s', h ⊆ h' → s.Grows s' → Chronicle n h' s' → Tells n h' s' moments' m' Q) :
    Tells n h s
      ((evalMoments fuel condition).andThen (Eval.eval fuel condition) fun v =>
        if v.isTruthy then moments else moments')
      (Eval.eval fuel condition >>= fun v => if v.isTruthy then m else m') Q := by
  refine (ih.eval condition hs hstands hcode).bind ((keepsPlaceWith fuel).eval condition) ?_
  intro h₁ v s₁ hsub₁ hgrows₁ hs₁ _
  cases v.isTruthy with
  | true => exact hthen h₁ s₁ hsub₁ hgrows₁ hs₁
  | false => exact helse h₁ s₁ hsub₁ hgrows₁ hs₁

theorem exec_var (ih : TellsWith n fuel) {name : Name} {initial : Option Expr}
    (hs : Chronicle n h s)
    (hstands : Stands h setting Γ (Stmt.var name initial).direct s.current)
    (hformed : (Stmt.var name initial).Formed)
    (hcode : CodeIn n s.distances ((Stmt.var name initial).Obeys setting Γ)
      ((Stmt.var name initial).records Γ) (Stmt.var name initial).occurrences) :
    Tells n h s (execMoments (fuel + 1) (.var name initial))
      (Eval.exec (fuel + 1) (.var name initial)) fun h' flow _ => flow.From h' := by
  refine tells_executes _ hs hstands fun h _ hs hstands => ?_
  have hdefine {h₁ : List Moment} {s₁ : State} {v : Value} (hs₁ : Chronicle n h₁ s₁)
      (hv : v.From h₁) : Tells n h₁ s₁ .none (do define name.text v; return Flow.normal)
        fun h' flow _ => flow.From h' :=
    .bind_of_ok rfl (.pure (hs₁.define hformed hv) trivial)
  cases initial with
  | none => exact hdefine hs trivial
  | some e =>
      obtain ⟨⟨⟨_, hobeys⟩, hrecorded⟩, hoccurrences⟩ := hcode
      rw [Stmt.occurrences, Expr.occurrencesOption_some] at hoccurrences
      rw [Stmt.direct, Expr.occurrencesOption_some] at hstands
      have he : CodeIn n s.distances (e.Obeys setting (Γ.declaring name.text))
          (e.records (Γ.declaring name.text)) e.occurrences :=
        ⟨⟨hobeys, hrecorded⟩, hoccurrences⟩
      have hinitial : Stands h setting (Γ.declaring name.text) e.occurrences s.current :=
        hstands.of_locate? fun w hw =>
          Scopes.locate?_declaring_of_ne (ne_of_ordinary hformed hw)
      refine (ih.eval e hs hinitial he).bind_quiet ((keepsPlaceWith fuel).eval e) ?_
      intro h₁ v s₁ _ _ hs₁ hv
      exact hdefine hs₁ hv

/-- A block goes on record with the scope that is made for it. -/
theorem exec_block (ih : TellsWith n fuel) {body : List Stmt} (hs : Chronicle n h s)
    (hstands : Stands h setting Γ (Stmt.block body).direct s.current)
    (hformed : (Stmt.block body).Formed)
    (hcode : CodeIn n s.distances ((Stmt.block body).Obeys setting Γ)
      ((Stmt.block body).records Γ) (Stmt.block body).occurrences) :
    Tells n h s (execMoments (fuel + 1) (.block body)) (Eval.exec (fuel + 1) (.block body))
      fun h' flow _ => flow.From h' := by
  refine tells_executes _ hs hstands fun h _ hs hstands => ?_
  let inner := s.store.nextEnv
  let s₁ : State := { s with store := s.store.addEnv (some s.current) }
  let event : Event := .opens s.current inner
  have hs₁ : Chronicle n (h ++ [⟨event, s₁⟩]) s₁ :=
    (hs.addEnv hs.current).mark Store.plainIn_addEnv
  have hopens : Happened (h ++ [⟨event, s₁⟩]) (.opens s.current inner) :=
    ⟨_, List.mem_append_right h List.mem_cons_self, rfl⟩
  refine .after_of_ok (a := s.current) rfl (.after_of_ok (t := s₁) rfl (.mark hs₁ ?_))
  have hinside : Stands (h ++ [⟨event, s₁⟩]) setting ([] :: Γ) (Stmt.directAll body) inner :=
    (hstands.mono (List.subset_append_left _ _)).block fun _ _ hactivation =>
      .block hactivation hopens
  exact ih.execAll_within body hs₁ Store.hasEnv_nextEnv hinside hformed hcode

theorem exec_ifElse (ih : TellsWith n fuel) {condition : Expr} {thenBranch elseBranch : Stmt}
    (hs : Chronicle n h s)
    (hstands : Stands h setting Γ (Stmt.ifElse condition thenBranch elseBranch).direct s.current)
    (hformed : (Stmt.ifElse condition thenBranch elseBranch).Formed)
    (hcode : CodeIn n s.distances ((Stmt.ifElse condition thenBranch elseBranch).Obeys setting Γ)
      ((Stmt.ifElse condition thenBranch elseBranch).records Γ)
      (Stmt.ifElse condition thenBranch elseBranch).occurrences) :
    Tells n h s (execMoments (fuel + 1) (.ifElse condition thenBranch elseBranch))
      (Eval.exec (fuel + 1) (.ifElse condition thenBranch elseBranch))
      fun h' flow _ => flow.From h' := by
  refine tells_executes _ hs hstands fun h _ hs hstands => ?_
  obtain ⟨hcondition, hthen, helse⟩ := hcode.branches hformed
  obtain ⟨⟨_, hthenFormed⟩, _, helseFormed⟩ := hformed
  obtain ⟨hstandsCondition, hstandsBranches⟩ := hstands.and
  obtain ⟨hstandsThen, hstandsElse⟩ := hstandsBranches.and
  refine ih.condition hs hstandsCondition hcondition ?_ ?_
  · intro h₁ s₁ hsub₁ hgrows₁ hs₁
    exact ih.exec thenBranch hs₁ (hstandsThen.later hsub₁ hgrows₁) hthenFormed
      (hthen.later hgrows₁)
  · intro h₁ s₁ hsub₁ hgrows₁ hs₁
    exact ih.exec elseBranch hs₁ (hstandsElse.later hsub₁ hgrows₁) helseFormed
      (helse.later hgrows₁)

/-- A loop goes round once, and then it is a loop with less fuel. -/
theorem exec_loop (ih : TellsWith n fuel) {condition : Expr} {body : Stmt} (hs : Chronicle n h s)
    (hstands : Stands h setting Γ (Stmt.loop condition body).direct s.current)
    (hformed : (Stmt.loop condition body).Formed)
    (hcode : CodeIn n s.distances ((Stmt.loop condition body).Obeys setting Γ)
      ((Stmt.loop condition body).records Γ) (Stmt.loop condition body).occurrences) :
    Tells n h s (execMoments (fuel + 1) (.loop condition body))
      (Eval.exec (fuel + 1) (.loop condition body)) fun h' flow _ => flow.From h' := by
  refine tells_executes _ hs hstands fun h _ hs hstands => ?_
  obtain ⟨hcondition, hbody⟩ := hcode.and
  obtain ⟨hstandsCondition, hstandsBody⟩ := hstands.and
  refine ih.condition hs hstandsCondition hcondition ?_ fun _ _ _ _ hs₁ => .pure hs₁ trivial
  intro h₁ s₁ hsub₁ hgrows₁ hs₁
  refine (ih.exec body hs₁ (hstandsBody.later hsub₁ hgrows₁) hformed.2
    (hbody.later hgrows₁)).bind ((keepsPlaceWith fuel).exec body) ?_
  intro h₂ flow s₂ hsub₂ hgrows₂ hs₂ hflow
  cases flow with
  | returning w line => exact .pure hs₂ hflow
  | normal =>
      exact ih.exec (.loop condition body) hs₂ ((hstands.later hsub₁ hgrows₁).later hsub₂ hgrows₂)
        hformed ((hcode.later hgrows₁).later hgrows₂)

theorem exec_function {d : FunctionDecl} (hs : Chronicle n h s)
    (hstands : Stands h setting Γ (Stmt.function d).direct s.current)
    (hformed : (Stmt.function d).Formed)
    (hcode : CodeIn n s.distances ((Stmt.function d).Obeys setting Γ)
      ((Stmt.function d).records Γ) (Stmt.function d).occurrences) :
    Tells n h s (execMoments (fuel + 1) (.function d)) (Eval.exec (fuel + 1) (.function d))
      fun h' flow _ => flow.From h' := by
  refine tells_executes _ hs hstands fun h _ hs hstands => ?_
  obtain ⟨⟨⟨_, hobeys⟩, hrecorded⟩, hoccurrences⟩ := hcode
  have hname : Ordinary d.name.text := by
    cases d with
    | mk name parameters body => exact hformed.1
  have hinside : Stands h { setting with body := .function } (Γ.introducing d.name.text)
      (FunctionDecl.direct d) s.current := hstands.of_locate? fun w hw =>
    Scopes.locate?_introducing_of_ne (ne_of_ordinary hname hw)
  have hready : d.ReadyIn n s.distances { setting with body := .function }
      (Γ.introducing d.name.text) := ⟨hformed, ⟨⟨hobeys, hrecorded⟩, hoccurrences⟩⟩
  refine (tells_declareFunction hs hname hinside hready).mono ?_
  rintro h' flow _ rfl
  trivial

theorem exec_classDef {name : Name} {superclass : Option Reference} {methods : List FunctionDecl}
    (hs : Chronicle n h s)
    (hstands : Stands h setting Γ (Stmt.classDef name superclass methods).direct s.current)
    (hformed : (Stmt.classDef name superclass methods).Formed)
    (hcode : CodeIn n s.distances ((Stmt.classDef name superclass methods).Obeys setting Γ)
      ((Stmt.classDef name superclass methods).records Γ)
      (Stmt.classDef name superclass methods).occurrences) :
    Tells n h s (execMoments (fuel + 1) (.classDef name superclass methods))
      (Eval.exec (fuel + 1) (.classDef name superclass methods)) fun h' flow _ => flow.From h' := by
  refine tells_executes _ hs hstands fun h hexecuted hs _ => ?_
  have hdeclare : Tells n h s (fun s => classMoments ⟨s, name, superclass, methods⟩ s)
      (declareClass name superclass methods) fun _ _ _ => True :=
    .congr rfl rfl (tells_declareClass (d := ⟨s, name, superclass, methods⟩) hs rfl hexecuted
      hformed.1 (hcode.exists_readyIn hformed))
  refine hdeclare.bind_quiet (keeps_declareClass _ _ _) ?_
  intro h₁ _ s₁ _ _ hs₁ _
  exact .pure hs₁ trivial

theorem exec_giveBack (ih : TellsWith n fuel) {line : Nat} {value : Option Expr}
    (hs : Chronicle n h s)
    (hstands : Stands h setting Γ (Stmt.giveBack line value).direct s.current)
    (hcode : CodeIn n s.distances ((Stmt.giveBack line value).Obeys setting Γ)
      ((Stmt.giveBack line value).records Γ) (Stmt.giveBack line value).occurrences) :
    Tells n h s (execMoments (fuel + 1) (.giveBack line value))
      (Eval.exec (fuel + 1) (.giveBack line value)) fun h' flow _ => flow.From h' := by
  refine tells_executes _ hs hstands fun h _ hs hstands => ?_
  cases value with
  | none => exact .pure hs trivial
  | some e =>
      obtain ⟨⟨⟨_, _, hobeys⟩, hrecorded⟩, hoccurrences⟩ := hcode
      rw [Stmt.occurrences, Expr.occurrencesOption_some] at hoccurrences
      rw [Stmt.direct, Expr.occurrencesOption_some] at hstands
      have he : CodeIn n s.distances (e.Obeys setting Γ) (e.records Γ) e.occurrences :=
        ⟨⟨hobeys, hrecorded⟩, hoccurrences⟩
      refine (ih.eval e hs hstands he).bind_quiet ((keepsPlaceWith fuel).eval e) ?_
      intro h₁ v s₁ _ _ hs₁ hv
      exact .pure hs₁ hv

theorem exec_succ (ih : TellsWith n fuel) (stmt : Stmt) (hs : Chronicle n h s)
    (hstands : Stands h setting Γ stmt.direct s.current) (hformed : stmt.Formed)
    (hcode : CodeIn n s.distances (stmt.Obeys setting Γ) (stmt.records Γ) stmt.occurrences) :
    Tells n h s (execMoments (fuel + 1) stmt) (Eval.exec (fuel + 1) stmt)
      fun h' flow _ => flow.From h' := by
  have hkeeps := keepsPlaceWith fuel
  cases stmt with
  | expression e =>
      refine tells_executes _ hs hstands fun h _ hs hstands => ?_
      refine (ih.eval e hs hstands hcode).bind_quiet (hkeeps.eval e) ?_
      intro h₁ v s₁ _ _ hs₁ hv
      exact .bind_of_ok rfl
        (.pure (hs₁.of_same rfl rfl rfl rfl (Nat.le_refl _) hs₁.current hv) trivial)
  | print e =>
      refine tells_executes _ hs hstands fun h _ hs hstands => ?_
      refine (ih.eval e hs hstands hcode).bind_quiet (hkeeps.eval e) ?_
      intro h₁ v s₁ _ _ hs₁ _
      refine (tells_emit hs₁).bind_quiet (keeps_emit _) ?_
      intro h₂ _ s₂ _ _ hs₂ _
      exact .pure hs₂ trivial
  | ifThen condition thenBranch =>
      refine tells_executes _ hs hstands fun h _ hs hstands => ?_
      obtain ⟨hcondition, hthen⟩ := hcode.and
      obtain ⟨hstandsCondition, hstandsThen⟩ := hstands.and
      refine ih.condition hs hstandsCondition hcondition ?_ fun _ _ _ _ hs₁ => .pure hs₁ trivial
      intro h₁ s₁ hsub₁ hgrows₁ hs₁
      exact ih.exec thenBranch hs₁ (hstandsThen.later hsub₁ hgrows₁) hformed.2
        (hthen.later hgrows₁)
  | var name initial => exact ih.exec_var hs hstands hformed hcode
  | block body => exact ih.exec_block hs hstands hformed hcode
  | ifElse condition thenBranch elseBranch => exact ih.exec_ifElse hs hstands hformed hcode
  | loop condition body => exact ih.exec_loop hs hstands hformed hcode
  | function d => exact exec_function hs hstands hformed hcode
  | giveBack line value => exact ih.exec_giveBack hs hstands hcode
  | classDef name superclass methods => exact exec_classDef hs hstands hformed hcode

theorem execAll_succ (ih : TellsWith n fuel) (stmts : List Stmt) (hs : Chronicle n h s)
    (hstands : Stands h setting Γ (Stmt.directAll stmts) s.current) (hformed : Stmt.FormedAll stmts)
    (hcode : CodeIn n s.distances (Stmt.ObeysAll setting Γ stmts) (Stmt.recordsAll Γ stmts)
      (Stmt.occurrencesAll stmts)) :
    Tells n h s (execAllMoments (fuel + 1) stmts) (Eval.execAll (fuel + 1) stmts)
      fun h' flow _ => flow.From h' := by
  cases stmts with
  | nil => exact .pure hs trivial
  | cons stmt stmts =>
      obtain ⟨hformedFirst, hformedRest⟩ := hformed
      obtain ⟨hfirst, hrest⟩ := hcode.and
      obtain ⟨hstandsFirst, hstandsRest⟩ := hstands.and
      refine (ih.exec stmt hs hstandsFirst hformedFirst hfirst).bind
        ((keepsPlaceWith fuel).exec stmt) ?_
      intro h₁ flow s₁ hsub₁ hgrows₁ hs₁ hflow
      cases flow with
      | returning v line => exact .pure hs₁ hflow
      | normal =>
          have hafter : Stands h₁ setting (stmt.after Γ) (Stmt.directAll stmts) s₁.current :=
            (hstandsRest.later hsub₁ hgrows₁).of_locate? fun w hw =>
              stmt.locate?_after hformedFirst hw
          exact ih.execAll stmts hs₁ hafter hformedRest (hrest.later hgrows₁)

end TellsWith

/-- However much fuel there is, what happens in a run is true when it goes on record. -/
theorem tellsWith (n : NodeId) (fuel : Nat) : TellsWith n fuel := by
  induction fuel with
  | zero => constructor <;> intros <;> exact .outOfFuel
  | succ fuel ih =>
      exact {
        eval := ih.eval_succ
        evalAll := ih.evalAll_succ
        call := ih.call_succ
        invoke := ih.invoke_succ
        exec := ih.exec_succ
        execAll := ih.execAll_succ }

theorem tells_echo {stmt : Stmt} (hs : Chronicle n h s) :
    Tells n h s .none (echo stmt) fun _ _ _ => True := by
  refine .bind_of_ok (Run.get_apply s) ?_
  cases stmt with
  | expression e =>
      simp only
      cases s.echo with
      | true => exact tells_emit hs
      | false => exact .pure hs trivial
  | _ => exact .pure hs trivial

/-- What happens in a run of a program is true when it goes on record. -/
theorem tells_runProgram (fuel : Nat) {program : List Stmt} (hs : Chronicle n h s)
    (hformed : Stmt.FormedAll program)
    (hcode : CodeIn n s.distances (Stmt.ObeysAll ⟨.topLevel, .outside⟩ [] program)
      (Stmt.recordsAll [] program) (Stmt.occurrencesAll program)) :
    Tells n h s (programMoments fuel program) (runProgram fuel program) fun _ _ _ => True := by
  induction program generalizing h s with
  | nil => exact .pure hs trivial
  | cons stmt stmts ih =>
      obtain ⟨hformedFirst, hformedRest⟩ := hformed
      obtain ⟨hfirst, hrest⟩ := hcode.and
      refine ((tellsWith n fuel).exec stmt hs (.outside rfl) hformedFirst hfirst).bind
        ((keepsPlaceWith fuel).exec stmt) ?_
      intro h₁ flow s₁ _ hgrows₁ hs₁ _
      cases flow with
      | returning v line => exact .fail hs₁
      | normal =>
          refine (tells_echo hs₁).after (keeps_echo stmt) ?_
          intro h₂ _ s₂ _ hgrows₂ hs₂ _
          rw [stmt.after_nil] at hrest
          exact ih hs₂ hformedRest ((hrest.later hgrows₁).later hgrows₂)

end Eval

end ScopedScript
