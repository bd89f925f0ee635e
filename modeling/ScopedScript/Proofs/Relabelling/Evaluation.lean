import ScopedScript.Proofs.Eval.Growth
import ScopedScript.Proofs.Relabelling.Mirror
import ScopedScript.Proofs.Relabelling.Resolution
import ScopedScript.Proofs.Relabelling.State

/-!
# Running under other numbers and lines

A program in which references have other numbers and words stand on other lines does what the
program itself does, in a state in which they are changed alike: it prints the same, and it ends
with the same fault, but for the line. All that is asked of the distances is that the same ones are
known, so it does not matter what is known of references that no code under way has.
-/

namespace ScopedScript

section Definitions

variable (g : Relabelling)

/-- Why a run stopped, with another line. -/
def Halt.relabel : Halt → Halt
  | .runtime fault line => .runtime fault (g.line line)
  | .output reason => .output reason

/-- How a statement ends, with other numbers and lines. -/
def Flow.relabel : Flow → Flow
  | .normal => .normal
  | .returning value line => .returning (value.relabel g) (g.line line)

/-- What running makes of other numbers and lines, while the distances `D` are known, for which
there are the distances `D'`. The clock does not care what it is asked. -/
def Relabelling.running (D D' : Distances) (readings : Nat → Float) : Mirror Halt State where
  error := Halt.relabel g
  state := State.relabel g D'
  Holds s := s.distances = D ∧ s.host = .ofClock readings

end Definitions

theorem Relabelling.running_state {g : Relabelling} {D D' : Distances} {readings : Nat → Float}
    (s : State) : (g.running D D' readings).state s = s.relabel g D' := rfl

@[simp] theorem Halt.relabel_renumber (node : NodeId → NodeId) (reason : Halt) :
    reason.relabel (.renumber node) = reason := by
  cases reason <;> rfl

namespace Eval

open Mirror (Reflects)

/-- Distances for a change of numbers, and a clock. -/
structure Setup (g : Relabelling) where
  D : Distances
  D' : Distances
  carries : g.Carries D D'
  readings : Nat → Float

variable {g : Relabelling} {S : Setup g} {α β : Type}

/-- Two computations of running programs do the same, but for numbers and lines. -/
abbrev Relabels (S : Setup g) (value : α → β) (m : Eval α) (m' : Eval β) : Prop :=
  (g.running S.D S.D' S.readings).Reflects value m m'

theorem relabels_fail (fault : RuntimeFault) (line : Nat) (value : α → β) :
    Relabels S value (fail fault line) (fail fault (g.line line)) :=
  .fail (Halt.runtime fault line)

theorem relabels_onStore {f f' : Store → Store} (h : ∀ st, (f st).relabel g = f' (st.relabel g)) :
    Relabels S id (onStore f) (onStore f') := by
  refine .modify (fun s => ?_) (fun _ hs => hs)
  change State.mk (f' (s.store.relabel g)) _ _ _ _ _ _ _ _ _ = _
  rw [← h]
  rfl

theorem relabels_define (name : String) (value : Value) :
    Relabels S id (define name value) (define name (value.relabel g)) := by
  refine .modify (fun s => ?_) (fun _ hs => hs)
  change State.mk ((s.store.relabel g).define s.current name (value.relabel g)) _ _ _ _ _ _ _ _ _ =
    _
  rw [← Store.relabel_define]
  rfl

theorem relabels_freshIdentity : Relabels S id freshIdentity freshIdentity :=
  .update (fun _ => rfl) (fun _ => rfl) (fun _ hs => hs)

theorem relabels_newEnv (enclosing : EnvId) :
    Relabels S id (newEnv enclosing) (newEnv enclosing) := by
  refine .update (fun s => s.store.nextEnv_relabel) (fun s => ?_) (fun _ hs => hs)
  change State.mk ((s.store.relabel g).addEnv (some enclosing)) _ _ _ _ _ _ _ _ _ = _
  rw [← Store.relabel_addEnv]
  rfl

theorem relabels_newObject (cls : Class) :
    Relabels S (Object.relabel g) (newObject cls) (newObject (cls.relabel g)) := by
  refine .update (fun s => ?_) (fun s => ?_) (fun _ hs => hs)
  · exact congrArg (Object.mk · (cls.relabel g)) s.store.nextObject_relabel
  · change State.mk ((s.store.relabel g).addObject) _ _ _ _ _ _ _ _ _ = _
    rw [← Store.relabel_addObject]
    rfl

theorem relabels_emit (text : String) : Relabels S id (emit text) (emit text) := by
  intro s hs
  cases hwrite : s.sink.write (text ++ "\n") with
  | mk refusal sink =>
      have hwrite' : (s.relabel g S.D').sink.write (text ++ "\n") = (refusal, sink) := hwrite
      cases refusal with
      | none =>
          refine ⟨?_, .of_ok (emit_of_taken hwrite) hs⟩
          rw [emit_of_taken hwrite]
          exact emit_of_taken hwrite'
      | some reason =>
          refine ⟨?_, .of_fault (emit_of_refused hwrite) hs⟩
          rw [emit_of_refused hwrite]
          exact emit_of_refused hwrite'

theorem relabels_within (scope : EnvId) {value : α → β} {m : Eval α} {m' : Eval β}
    (h : Relabels S value m m') : Relabels S value (within scope m) (within scope m') := by
  intro s hs
  obtain ⟨heq, hholds⟩ := h { s with current := scope } hs
  refine ⟨?_, ensures_within hholds⟩
  have heq' : m' { s.relabel g S.D' with current := scope } =
      (m { s with current := scope }).map (Halt.relabel g) (State.relabel g S.D') value := heq
  change within scope m' (s.relabel g S.D') = _
  unfold within
  simp only [heq']
  cases m { s with current := scope } <;> rfl

theorem relabels_readAt (scope : EnvId) (distance : Nat) (name : Name) :
    Relabels S (Value.relabel g) (readAt scope distance name)
      (readAt scope distance (name.relabel g)) := by
  refine .get_bind fun s _ => ?_
  simp only [Relabelling.running_state, State.store_relabel, Store.lookupAt_relabel,
    Name.text_relabel]
  cases s.store.lookupAt scope distance name.text with
  | ok value => exact .pure value
  | error fault => cases fault <;> exact relabels_fail _ _ _

/-- What is known of a reference is known of it by its other number. -/
theorem Setup.getElem?_node {s : State} (hs : s.distances = S.D) (id : NodeId) :
    S.D'[g.node id]? = s.distances[id]? := by
  rw [hs]
  exact S.carries id

theorem relabels_read (id : NodeId) (name : Name) :
    Relabels S (Value.relabel g) (read id name) (read (g.node id) (name.relabel g)) := by
  refine .get_bind fun s hs => ?_
  simp only [Relabelling.running_state, State.store_relabel, State.distances_relabel,
    State.current_relabel, State.globals_relabel, Setup.getElem?_node hs.1, Store.lookup?_relabel,
    Name.text_relabel]
  cases s.distances[id]? with
  | some distance => exact relabels_readAt _ _ _
  | none =>
      cases s.store.lookup? s.globals name.text with
      | some value => exact .pure value
      | none => exact relabels_fail _ _ _

theorem relabels_assignmentTarget (ref : Reference) :
    Relabels S id (assignmentTarget ref) (assignmentTarget (ref.relabel g)) := by
  refine .get_bind fun s hs => ?_
  simp only [Relabelling.running_state, State.store_relabel, State.distances_relabel,
    State.current_relabel, State.globals_relabel, Reference.relabel, Setup.getElem?_node hs.1,
    Name.text_relabel]
  cases s.distances[ref.id]? with
  | some distance =>
      simp only [Store.ancestor?_relabel]
      cases s.store.ancestor? s.current distance with
      | some target => exact .pure target
      | none => exact relabels_fail _ _ _
  | none =>
      simp only [Store.binder?_relabel]
      cases s.store.binder? s.globals ref.name.text with
      | some target => exact .pure target
      | none => exact relabels_fail _ _ _

theorem relabels_assign (ref : Reference) (value : Value) :
    Relabels S id (assign ref value) (assign (ref.relabel g) (value.relabel g)) :=
  (relabels_assignmentTarget ref).bind fun target =>
    relabels_onStore fun st => st.relabel_define target ref.name.text value

theorem relabels_bindMethod (method : Function) (o : Object) :
    Relabels S (Function.relabel g) (bindMethod method o)
      (bindMethod (method.relabel g) (o.relabel g)) :=
  (relabels_newEnv method.closure).bind fun scope =>
    (relabels_onStore fun st => st.relabel_define scope receiverWord (.object o)).bind fun _ =>
      relabels_freshIdentity.bind fun id => .pure { method with id := id, closure := scope }

theorem relabels_property (o : Object) (name : Name) :
    Relabels S (Value.relabel g) (property o name) (property (o.relabel g) (name.relabel g)) := by
  refine .get_bind fun s _ => ?_
  simp only [Relabelling.running_state, State.store_relabel, Object.id_relabel,
    Object.cls_relabel, Store.field?_relabel, Class.findMethod?_relabel, Name.text_relabel]
  cases s.store.field? o.id name.text with
  | some value => exact .pure value
  | none =>
      cases o.cls.findMethod? name.text with
      | some method => exact (relabels_bindMethod method o).bind fun f => .pure (Value.function f)
      | none => exact relabels_fail _ _ _

theorem relabels_inheritedMethod (id : NodeId) (line : Nat) (method : Name) :
    Relabels S (Value.relabel g) (inheritedMethod id line method)
      (inheritedMethod (g.node id) (g.line line) (method.relabel g)) := by
  refine .get_bind fun s hs => ?_
  have hdistance : ((g.running S.D S.D' S.readings).state s).distances[g.node id]? =
      s.distances[id]? := Setup.getElem?_node hs.1 id
  rw [hdistance]
  cases s.distances[id]? with
  | none => exact relabels_fail _ _ _
  | some distance =>
      refine (relabels_readAt _ _ ⟨superclassWord, line⟩).bind fun v => ?_
      cases v with
      | cls superclass =>
          cases distance with
          | zero => exact relabels_fail _ _ _
          | succ inner =>
              refine (relabels_readAt _ _ ⟨receiverWord, line⟩).bind fun w => ?_
              cases w with
              | object o =>
                  simp only [Value.relabel, Name.text_relabel, Class.findMethod?_relabel]
                  cases superclass.findMethod? method.text with
                  | some found =>
                      exact (relabels_bindMethod found o).bind fun f => .pure (Value.function f)
                  | none => exact relabels_fail _ _ _
              | _ => exact relabels_fail _ _ _
      | _ => exact relabels_fail _ _ _

theorem relabels_makeMethods (closure : EnvId) (declarations : List FunctionDecl) :
    Relabels S (Bindings.map (Function.relabel g)) (makeMethods closure declarations)
      (makeMethods closure (FunctionDecl.relabelAll g declarations)) := by
  have hgo (made : Bindings Function) : Relabels S (Bindings.map (Function.relabel g))
      (makeMethods.go closure made declarations)
      (makeMethods.go closure (made.map (Function.relabel g))
        (FunctionDecl.relabelAll g declarations)) := by
    induction declarations generalizing made with
    | nil => exact .pure made
    | cons d ds ih =>
        refine relabels_freshIdentity.bind fun id => ?_
        have hmade := ih (made.insert d.name.text
          ⟨id, d, closure, d.name.text == initializerName⟩)
        rw [Bindings.map_insert] at hmade
        simpa [Function.relabel] using hmade
  exact hgo .empty

theorem relabels_superclass (ref : Reference) :
    Relabels S (Class.relabel g) (superclass ref) (superclass (ref.relabel g)) := by
  refine (relabels_read ref.id ref.name).bind fun v => ?_
  cases v with
  | cls c => exact .pure c
  | _ => exact relabels_fail _ _ _

theorem relabels_methodScope (parent : Option Class) :
    Relabels S id (methodScope parent) (methodScope (parent.map (Class.relabel g))) := by
  have hcurrent : Relabels S id (Run.gets State.current) (Run.gets State.current) :=
    .gets fun _ => rfl
  refine hcurrent.bind fun scope => ?_
  cases parent with
  | none => exact .pure scope
  | some c =>
      exact (relabels_newEnv scope).bind fun inner =>
        (relabels_onStore fun st => st.relabel_define inner superclassWord (.cls c)).bind fun _ =>
          .pure inner

theorem relabels_declareClass (name : Name) (ref : Option Reference)
    (declarations : List FunctionDecl) :
    Relabels S id (declareClass name ref declarations)
      (declareClass (name.relabel g) (ref.map (Reference.relabel g))
        (FunctionDecl.relabelAll g declarations)) := by
  have hrest (parent : Option Class) : Relabels S id
      (do
        define name.text .nil
        let closure ← methodScope parent
        let methods ← makeMethods closure declarations
        let id ← freshIdentity
        define name.text (.cls (.extending ⟨id, name.text, methods⟩ parent)))
      (do
        define name.text .nil
        let closure ← methodScope (parent.map (Class.relabel g))
        let methods ← makeMethods closure (FunctionDecl.relabelAll g declarations)
        let id ← freshIdentity
        define name.text
          (.cls (.extending ⟨id, name.text, methods⟩ (parent.map (Class.relabel g))))) := by
    refine (relabels_define name.text .nil).bind fun _ => (relabels_methodScope parent).bind
      fun closure => (relabels_makeMethods closure declarations).bind fun methods =>
        relabels_freshIdentity.bind fun id => ?_
    have hdefine := relabels_define (S := S) name.text
      (.cls (.extending ⟨id, name.text, methods⟩ parent))
    rwa [Value.relabel, Class.relabel_extending] at hdefine
  cases ref with
  | none => exact hrest none
  | some ref =>
      have hparent : Relabels S (Option.map (Class.relabel g)) (some <$> superclass ref)
          (some <$> superclass (ref.relabel g)) := (relabels_superclass ref).map fun _ => rfl
      exact hparent.bind hrest

theorem relabels_checkArity (expected got line : Nat) :
    Relabels S id (checkArity expected got line) (checkArity expected got (g.line line)) := by
  unfold checkArity
  split
  · exact .pure ()
  · exact relabels_fail _ _ _

theorem relabels_askHost (f : Native) (arguments : List Value) (line : Nat) :
    Relabels S (Value.relabel g) (askHost f arguments line)
      (askHost f (arguments.map (Value.relabel g)) (g.line line)) := by
  refine .get_bind fun s hs => ?_
  have hcount : Relabels S id
      (Run.modify fun s : State => { s with nativeCalls := s.nativeCalls + 1 })
      (Run.modify fun s : State => { s with nativeCalls := s.nativeCalls + 1 }) :=
    .modify (fun _ => rfl) (fun _ hs => hs)
  refine hcount.bind fun _ => ?_
  have hhost : ((g.running S.D S.D' S.readings).state s).host = .ofClock S.readings := hs.2
  rw [hhost, hs.2]
  exact .pure (Value.number (S.readings s.nativeCalls))

theorem relabels_ofOperation (result : Except RuntimeFault Value) (line : Nat) :
    Relabels S (Value.relabel g) (ofOperation result line)
      (ofOperation (result.map (Value.relabel g)) (g.line line)) := by
  cases result with
  | ok value => exact .pure value
  | error fault => exact relabels_fail _ _ _

/-- With a given fuel, running does the same, but for numbers and lines. -/
structure RelabelsWith (S : Setup g) (fuel : Nat) : Prop where
  eval (e : Expr) : Relabels S (Value.relabel g) (Eval.eval fuel e) (Eval.eval fuel (e.relabel g))
  evalAll (es : List Expr) : Relabels S (List.map (Value.relabel g)) (Eval.evalAll fuel es)
    (Eval.evalAll fuel (Expr.relabelAll g es))
  call (callee : Value) (arguments : List Value) (line : Nat) : Relabels S (Value.relabel g)
    (Eval.call fuel callee arguments line)
    (Eval.call fuel (callee.relabel g) (arguments.map (Value.relabel g)) (g.line line))
  invoke (f : Function) (arguments : List Value) : Relabels S (Value.relabel g)
    (Eval.invoke fuel f arguments)
    (Eval.invoke fuel (f.relabel g) (arguments.map (Value.relabel g)))
  exec (s : Stmt) : Relabels S (Flow.relabel g) (Eval.exec fuel s) (Eval.exec fuel (s.relabel g))
  execAll (ss : List Stmt) : Relabels S (Flow.relabel g) (Eval.execAll fuel ss)
    (Eval.execAll fuel (Stmt.relabelAll g ss))

namespace RelabelsWith

variable {fuel : Nat}

theorem eval_succ (ih : RelabelsWith S fuel) (e : Expr) :
    Relabels S (Value.relabel g) (Eval.eval (fuel + 1) e) (Eval.eval (fuel + 1) (e.relabel g)) := by
  cases e with
  | literal value =>
      have hvalue : Relabels S (Value.relabel g) (pure value.value)
          (pure (value.value.relabel g)) := .pure value.value
      rwa [Literal.relabel_value] at hvalue
  | grouping inner => exact ih.eval inner
  | unary op line operand =>
      refine (ih.eval operand).bind fun v => ?_
      rw [UnaryOp.apply_relabel]
      exact relabels_ofOperation _ _
  | binary op line left right =>
      refine (ih.eval left).bind fun v => (ih.eval right).bind fun w => ?_
      rw [BinaryOp.apply_relabel]
      exact relabels_ofOperation _ _
  | logical op line left right =>
      refine (ih.eval left).bind fun v => ?_
      rw [LogicalOp.decides_relabel]
      cases op.decides v with
      | true => exact .pure v
      | false => exact ih.eval right
  | name ref => exact relabels_read _ _
  | assign ref value =>
      exact (ih.eval value).bind fun v => (relabels_assign ref v).bind fun _ => .pure v
  | call callee line arguments =>
      exact (ih.eval callee).bind fun f => (ih.evalAll arguments).bind fun values =>
        ih.call f values line
  | get object name =>
      refine (ih.eval object).bind fun v => ?_
      cases v with
      | object o => exact relabels_property o name
      | _ => exact relabels_fail _ _ _
  | set object name value =>
      refine (ih.eval object).bind fun v => ?_
      cases v with
      | object o =>
          exact (ih.eval value).bind fun v =>
            (relabels_onStore fun st => st.relabel_setField o.id name.text v).bind fun _ => .pure v
      | _ => exact relabels_fail _ _ _
  | receiver id line => exact relabels_read id ⟨receiverWord, line⟩
  | inherited id line method => exact relabels_inheritedMethod id line method

theorem evalAll_succ (ih : RelabelsWith S fuel) (es : List Expr) :
    Relabels S (List.map (Value.relabel g)) (Eval.evalAll (fuel + 1) es)
      (Eval.evalAll (fuel + 1) (Expr.relabelAll g es)) := by
  cases es with
  | nil => exact .pure []
  | cons e es =>
      exact (ih.eval e).bind fun v => (ih.evalAll es).bind fun vs => .pure (v :: vs)

theorem call_succ (ih : RelabelsWith S fuel) (callee : Value) (arguments : List Value)
    (line : Nat) : Relabels S (Value.relabel g) (Eval.call (fuel + 1) callee arguments line)
      (Eval.call (fuel + 1) (callee.relabel g) (arguments.map (Value.relabel g))
        (g.line line)) := by
  have harity (expected : Nat) : Relabels S id (checkArity expected arguments.length line)
      (checkArity expected (arguments.map (Value.relabel g)).length (g.line line)) := by
    rw [List.length_map]
    exact relabels_checkArity _ _ _
  cases callee with
  | function f =>
      simp only [Value.relabel, Eval.call, Function.arity_relabel]
      exact (harity _).bind fun _ => ih.invoke f arguments
  | cls c =>
      simp only [Value.relabel, Eval.call, Class.arity_relabel, Class.findMethod?_relabel]
      refine (harity _).bind fun _ => (relabels_newObject c).bind fun o => ?_
      cases c.findMethod? initializerName with
      | some method =>
          exact (relabels_bindMethod method o).bind fun f => (ih.invoke f arguments).bind fun _ =>
            .pure (Value.object o)
      | none => exact .pure (Value.object o)
  | native f => exact (harity f.arity).bind fun _ => relabels_askHost f arguments line
  | _ => exact relabels_fail _ _ _

theorem invoke_succ (ih : RelabelsWith S fuel) (f : Function) (arguments : List Value) :
    Relabels S (Value.relabel g) (Eval.invoke (fuel + 1) f arguments)
      (Eval.invoke (fuel + 1) (f.relabel g) (arguments.map (Value.relabel g))) := by
  have hnames : (f.relabel g).declaration.parameters.map Name.text =
      f.declaration.parameters.map Name.text := by
    simp [Function.relabel, Function.comp_def]
  have hbody : (f.relabel g).declaration.body = Stmt.relabelAll g f.declaration.body :=
    f.declaration.body_relabel
  have hname : (f.relabel g).declaration.name = f.declaration.name.relabel g :=
    f.declaration.name_relabel
  simp only [Eval.invoke, hnames, hbody, hname]
  refine (relabels_newEnv f.closure).bind fun scope => ?_
  refine (relabels_onStore fun st => st.relabel_defineAll scope _ arguments).bind fun _ => ?_
  refine (relabels_within scope (ih.execAll _)).bind fun flow => ?_
  change Relabels S (Value.relabel g) _ (if f.isInitializer then _ else _)
  cases f.isInitializer with
  | true => exact relabels_readAt f.closure 0 ⟨receiverWord, f.declaration.name.line⟩
  | false =>
      cases flow with
      | normal => exact .pure Value.nil
      | returning value line => exact .pure value

theorem exec_succ (ih : RelabelsWith S fuel) (s : Stmt) :
    Relabels S (Flow.relabel g) (Eval.exec (fuel + 1) s) (Eval.exec (fuel + 1) (s.relabel g)) := by
  have hcurrent : Relabels S id (Run.gets State.current) (Run.gets State.current) :=
    .gets fun _ => rfl
  cases s with
  | expression e =>
      have hnote (v : Value) : Relabels S id
          (Run.modify fun s : State => { s with lastValue := v })
          (Run.modify fun s : State => { s with lastValue := v.relabel g }) :=
        .modify (fun _ => rfl) (fun _ hs => hs)
      exact (ih.eval e).bind fun v => (hnote v).bind fun _ => .pure Flow.normal
  | print e =>
      refine (ih.eval e).bind fun v => ?_
      rw [Value.render_relabel]
      exact (relabels_emit _).bind fun _ => .pure Flow.normal
  | var name initial =>
      have hdefine (v : Value) : Relabels S (Flow.relabel g)
          (do define name.text v; return Flow.normal)
          (do define name.text (v.relabel g); return Flow.normal) :=
        (relabels_define name.text v).bind fun _ => .pure Flow.normal
      cases initial with
      | some e => exact (ih.eval e).bind hdefine
      | none => exact hdefine .nil
  | block body =>
      exact hcurrent.bind fun outer => (relabels_newEnv outer).bind fun scope =>
        relabels_within scope (ih.execAll body)
  | ifThen condition thenBranch =>
      refine (ih.eval condition).bind fun v => ?_
      rw [Value.isTruthy_relabel]
      cases v.isTruthy with
      | true => exact ih.exec thenBranch
      | false => exact .pure Flow.normal
  | ifElse condition thenBranch elseBranch =>
      refine (ih.eval condition).bind fun v => ?_
      rw [Value.isTruthy_relabel]
      cases v.isTruthy with
      | true => exact ih.exec thenBranch
      | false => exact ih.exec elseBranch
  | loop condition body =>
      refine (ih.eval condition).bind fun v => ?_
      rw [Value.isTruthy_relabel]
      cases v.isTruthy with
      | true =>
          refine (ih.exec body).bind fun flow => ?_
          cases flow with
          | normal => exact ih.exec (.loop condition body)
          | returning value line => exact .pure (Flow.returning value line)
      | false => exact .pure Flow.normal
  | function d =>
      simp only [Stmt.relabel, Eval.exec, FunctionDecl.name_relabel]
      exact relabels_freshIdentity.bind fun id => hcurrent.bind fun closure =>
        (relabels_define d.name.text (.function ⟨id, d, closure, false⟩)).bind fun _ =>
          .pure Flow.normal
  | giveBack line value =>
      cases value with
      | some e => exact (ih.eval e).bind fun v => .pure (Flow.returning v line)
      | none => exact .pure (Flow.returning .nil line)
  | classDef name superclass declarations =>
      exact (relabels_declareClass name superclass declarations).bind fun _ => .pure Flow.normal

theorem execAll_succ (ih : RelabelsWith S fuel) (ss : List Stmt) :
    Relabels S (Flow.relabel g) (Eval.execAll (fuel + 1) ss)
      (Eval.execAll (fuel + 1) (Stmt.relabelAll g ss)) := by
  cases ss with
  | nil => exact .pure Flow.normal
  | cons s ss =>
      refine (ih.exec s).bind fun flow => ?_
      cases flow with
      | normal => exact ih.execAll ss
      | returning value line => exact .pure (Flow.returning value line)

end RelabelsWith

theorem relabelsWith (fuel : Nat) : RelabelsWith S fuel := by
  induction fuel with
  | zero => constructor <;> intros <;> exact .outOfFuel
  | succ fuel ih =>
      exact {
        eval := ih.eval_succ
        evalAll := ih.evalAll_succ
        call := ih.call_succ
        invoke := ih.invoke_succ
        exec := ih.exec_succ
        execAll := ih.execAll_succ }

theorem relabels_echo (s : Stmt) : Relabels S id (echo s) (echo (s.relabel g)) := by
  refine .get_bind fun state _ => ?_
  cases s with
  | expression e =>
      change Relabels S id (if state.echo then emit state.lastValue.render else pure ())
        (if state.echo then emit (state.lastValue.relabel g).render else pure ())
      rw [Value.render_relabel]
      split
      · exact relabels_emit _
      · exact .pure ()
  | _ => exact .pure ()

/-- A program with other numbers and lines runs like the program itself. -/
theorem relabels_runProgram (fuel : Nat) (program : List Stmt) :
    Relabels S id (runProgram fuel program) (runProgram fuel (Stmt.relabelAll g program)) := by
  induction program with
  | nil => exact .pure ()
  | cons s ss ih =>
      refine ((relabelsWith fuel).exec s).bind fun flow => ?_
      cases flow with
      | normal => exact (relabels_echo s).bind fun _ => ih
      | returning value line => exact relabels_fail _ _ _

end Eval

end ScopedScript
