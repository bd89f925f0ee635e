import ScopedScript.Eval.Basic
import ScopedScript.Proofs.Outcome
import ScopedScript.Proofs.Store.Extension

/-!
# What a run leaves as it was

However the evaluation of an expression or the execution of a statement ends, the scope in which it
was begun is the current one again, the global scope and the known distances are the same, and the
store has only grown. This holds of every state, also of those that no program leads to.
-/

namespace ScopedScript

/-- A later state of a run at the same place. -/
structure State.Grows (s s' : State) : Prop where
  current_eq : s'.current = s.current
  globals_eq : s'.globals = s.globals
  distances_eq : s'.distances = s.distances
  echo_eq : s'.echo = s.echo
  host_eq : s'.host = s.host
  store_extends : s.store.Extends s'.store

namespace State.Grows

variable {s s₁ s₂ s₃ : State}

theorem refl (s : State) : s.Grows s := ⟨rfl, rfl, rfl, rfl, rfl, .refl _⟩

/-- What adds to the store alone leaves the rest as it was. -/
theorem of_store {st : Store} (h : s.store.Extends st) : s.Grows { s with store := st } :=
  ⟨rfl, rfl, rfl, rfl, rfl, h⟩

theorem trans (h₁ : s₁.Grows s₂) (h₂ : s₂.Grows s₃) : s₁.Grows s₃ where
  current_eq := h₂.current_eq.trans h₁.current_eq
  globals_eq := h₂.globals_eq.trans h₁.globals_eq
  distances_eq := h₂.distances_eq.trans h₁.distances_eq
  echo_eq := h₂.echo_eq.trans h₁.echo_eq
  host_eq := h₂.host_eq.trans h₁.host_eq
  store_extends := h₁.store_extends.trans h₂.store_extends

/-- What is run in another scope comes back to the current one. -/
theorem within {s' : State} {scope : EnvId} (h : State.Grows { s with current := scope } s') :
    s.Grows { s' with current := s.current } :=
  ⟨rfl, h.globals_eq, h.distances_eq, h.echo_eq, h.host_eq, h.store_extends⟩

end State.Grows

/-- No scope encloses the global one, and the only native is the clock. -/
structure State.Grounded (s : State) : Prop where
  hasEnv : s.store.HasEnv s.globals
  outermost : s.store.enclosing? s.globals = none
  clocked : ∃ readings, s.host = .ofClock readings

theorem State.Grounded.later {s s' : State} (h : s.Grounded) (hglobals : s'.globals = s.globals)
    (hextends : s.store.Extends s'.store) (hhost : s'.host = s.host) : s'.Grounded where
  hasEnv := by
    rw [hglobals]
    exact hextends.hasEnv h.hasEnv
  outermost := by
    rw [hglobals, hextends.enclosing h.hasEnv, h.outermost]
  clocked := by
    rw [hhost]
    exact h.clocked

namespace Eval

/-- A relation between the state at the beginning of a computation and that at its end, given why
the computation stopped if it did. -/
abbrev Course := Option Halt → State → State → Prop

variable {α β : Type} {R : Course}

/-- A relation that nothing breaks but a change of the current scope or of the last value: what one
step of a run adds to the store, prints or asks of a native keeps it, and so do steps one after the
other. -/
class Tolerant (R : Course) : Prop where
  refl (s : State) : R none s s
  trans {s₁ s₂ s₃ : State} {halt : Option Halt} : R none s₁ s₂ → R halt s₂ s₃ → R halt s₁ s₃
  stop (fault : RuntimeFault) (line : Nat) (s : State) : R (some (.runtime fault line)) s s
  store {s : State} {st : Store} : s.store.Extends st → R none s { s with store := st }
  taken {s : State} {sink : Sink} {text : String} : s.sink.write text = (none, sink) →
    R none s { s with sink := sink }
  refused {s : State} {sink : Sink} {text reason : String} :
    s.sink.write text = (some reason, sink) → R (some (.output reason)) s { s with sink := sink }
  nativeCalls {s : State} {calls : Nat} : R none s { s with nativeCalls := calls }
  nextIdentity {s : State} {id : Identity} : R none s { s with nextIdentity := id }

/-- A relation that a change of the last value does not break either, nor one of the current scope
that is undone in the end. So whatever is run keeps it. -/
class Steady (R : Course) : Prop extends Tolerant R where
  lastValue {s : State} {v : Value} : R none s { s with lastValue := v }
  within {s s' : State} {scope : EnvId} {halt : Option Halt} :
    R halt { s with current := scope } s' → R halt s { s' with current := s.current }

instance : Steady fun _ => State.Grows where
  refl := .refl
  trans := .trans
  stop _ _ := .refl
  store h := .of_store h
  taken _ := ⟨rfl, rfl, rfl, rfl, rfl, .refl _⟩
  refused _ := ⟨rfl, rfl, rfl, rfl, rfl, .refl _⟩
  nativeCalls := ⟨rfl, rfl, rfl, rfl, rfl, .refl _⟩
  nextIdentity := ⟨rfl, rfl, rfl, rfl, rfl, .refl _⟩
  lastValue := ⟨rfl, rfl, rfl, rfl, rfl, .refl _⟩
  within h := h.within

/-- However a computation ends, the state that it ends in is related to the one it started in. -/
def Keeps (R : Course) (m : Eval α) : Prop :=
  ∀ s, m.Ensures s (fun _ s' => R none s s') (fun halt s' => R (some halt) s s')

/-- However a computation ends, it leaves as it was what a run leaves as it was. -/
abbrev KeepsPlace (m : Eval α) : Prop := Keeps (fun _ => State.Grows) m

section Emit

variable {s : State} {text reason : String} {sink : Sink}

theorem emit_of_taken (h : s.sink.write (text ++ "\n") = (none, sink)) :
    emit text s = .ok () { s with sink := sink } := by
  simp [emit, h]

theorem emit_of_refused (h : s.sink.write (text ++ "\n") = (some reason, sink)) :
    emit text s = .fault (.output reason) { s with sink := sink } := by
  simp [emit, h]

/-- Printing changes the sink alone, whether it takes the text or refuses it. -/
theorem ensures_emit {Q : Unit → State → Prop} {F : Halt → State → Prop}
    (htaken : ∀ sink, s.sink.write (text ++ "\n") = (none, sink) → Q () { s with sink := sink })
    (hrefused : ∀ reason sink, s.sink.write (text ++ "\n") = (some reason, sink) →
      F (.output reason) { s with sink := sink }) : (emit text).Ensures s Q F := by
  cases hwrite : s.sink.write (text ++ "\n") with
  | mk refusal sink =>
      cases refusal with
      | none => exact .of_ok (emit_of_taken hwrite) (htaken sink hwrite)
      | some reason => exact .of_fault (emit_of_refused hwrite) (hrefused reason sink hwrite)

end Emit

theorem keeps_outOfFuel : Keeps R (Run.outOfFuel : Eval α) := fun _ => .of_exhausted rfl

section Tolerant

variable [Tolerant R]

theorem keeps_pure (a : α) : Keeps R (pure a : Eval α) :=
  fun s => .of_ok rfl (Tolerant.refl s)

theorem keeps_fail (fault : RuntimeFault) (line : Nat) : Keeps R (fail fault line : Eval α) :=
  fun s => .of_fault rfl (Tolerant.stop fault line s)

theorem Keeps.bind {m : Eval α} {f : α → Eval β} (h : Keeps R m)
    (hf : ∀ a, Keeps R (f a)) : Keeps R (m >>= f) := by
  intro s
  cases hm : m s with
  | ok a s₁ =>
      have hs₁ : R none s s₁ := (h s).ok hm
      exact .bind_of_ok hm ((hf a s₁).mono (fun _ _ => Tolerant.trans hs₁)
        (fun _ _ => Tolerant.trans hs₁))
  | fault halt s₁ => exact .bind_of_fault hm ((h s).fault hm)
  | exhausted => exact .bind_of_exhausted hm

theorem Keeps.map {m : Eval α} {f : α → β} (h : Keeps R m) : Keeps R (f <$> m) := by
  rw [map_eq_pure_bind]
  exact h.bind fun _ => keeps_pure _

theorem keeps_get : Keeps R (Run.get : Eval State) :=
  fun s => .of_ok rfl (Tolerant.refl s)

theorem keeps_gets (f : State → α) : Keeps R (Run.gets f : Eval α) :=
  fun s => .of_ok rfl (Tolerant.refl s)

theorem keeps_onStore {f : Store → Store} (hf : ∀ st : Store, st.Extends (f st)) :
    Keeps R (onStore f) :=
  fun s => .of_ok rfl (Tolerant.store (hf s.store))

theorem keeps_define (name : String) (value : Value) : Keeps R (define name value) :=
  fun _ => .of_ok rfl (Tolerant.store .define)

theorem keeps_freshIdentity : Keeps R freshIdentity :=
  fun _ => .of_ok rfl Tolerant.nextIdentity

theorem keeps_newEnv (enclosing : EnvId) : Keeps R (newEnv enclosing) :=
  fun _ => .of_ok rfl (Tolerant.store .addEnv)

theorem keeps_newObject (cls : Class) : Keeps R (newObject cls) :=
  fun _ => .of_ok rfl (Tolerant.store .addObject)

theorem keeps_emit (text : String) : Keeps R (emit text) :=
  fun _ => ensures_emit (fun _ => Tolerant.taken) fun _ _ => Tolerant.refused

theorem keeps_readAt (scope : EnvId) (distance : Nat) (name : Name) :
    Keeps R (readAt scope distance name) := by
  refine keeps_get.bind fun s => ?_
  cases s.store.lookupAt scope distance name.text with
  | ok value => exact keeps_pure _
  | error fault => cases fault <;> exact keeps_fail _ _

theorem keeps_read (id : NodeId) (name : Name) : Keeps R (read id name) := by
  refine keeps_get.bind fun s => ?_
  cases s.distances[id]? with
  | some distance => exact keeps_readAt _ _ _
  | none =>
      cases s.store.lookup? s.globals name.text with
      | some value => exact keeps_pure _
      | none => exact keeps_fail _ _

theorem keeps_assignmentTarget (ref : Reference) : Keeps R (assignmentTarget ref) := by
  refine keeps_get.bind fun s => ?_
  cases hdistance : s.distances[ref.id]? with
  | some distance =>
      simp only
      cases s.store.ancestor? s.current distance with
      | some target => exact keeps_pure _
      | none => exact keeps_fail _ _
  | none =>
      simp only
      cases s.store.binder? s.globals ref.name.text with
      | some target => exact keeps_pure _
      | none => exact keeps_fail _ _

theorem keeps_assign (ref : Reference) (value : Value) : Keeps R (assign ref value) :=
  (keeps_assignmentTarget ref).bind fun _ => keeps_onStore fun _ => .define

theorem keeps_bindMethod (method : Function) (o : Object) :
    Keeps R (bindMethod method o) :=
  (keeps_newEnv _).bind fun _ => (keeps_onStore fun _ => .define).bind fun _ =>
    keeps_freshIdentity.bind fun _ => keeps_pure _

theorem keeps_property (o : Object) (name : Name) : Keeps R (property o name) := by
  refine keeps_get.bind fun s => ?_
  cases s.store.field? o.id name.text with
  | some value => exact keeps_pure _
  | none =>
      cases o.cls.findMethod? name.text with
      | some method => exact (keeps_bindMethod _ _).bind fun _ => keeps_pure _
      | none => exact keeps_fail _ _

theorem keeps_inheritedMethod (id : NodeId) (line : Nat) (method : Name) :
    Keeps R (inheritedMethod id line method) := by
  refine keeps_get.bind fun s => ?_
  cases s.distances[id]? with
  | none => exact keeps_fail _ _
  | some distance =>
      refine (keeps_readAt _ _ _).bind fun v => ?_
      cases v with
      | cls superclass =>
          cases distance with
          | zero => exact keeps_fail _ _
          | succ inner =>
              refine (keeps_readAt _ _ _).bind fun w => ?_
              cases w with
              | object o =>
                  cases hmethod : superclass.findMethod? method.text with
                  | some found =>
                      simp only
                      exact (keeps_bindMethod _ _).bind fun _ => keeps_pure _
                  | none =>
                      simp only
                      exact keeps_fail _ _
              | _ => exact keeps_fail _ _
      | _ => exact keeps_fail _ _

theorem keeps_makeMethods (closure : EnvId) (declarations : List FunctionDecl) :
    Keeps R (makeMethods closure declarations) := by
  have hgo (made : Bindings Function) : Keeps R (makeMethods.go closure made declarations) := by
    induction declarations generalizing made with
    | nil => exact keeps_pure _
    | cons d ds ih => exact keeps_freshIdentity.bind fun _ => ih _
  exact hgo .empty

theorem keeps_superclass (ref : Reference) : Keeps R (superclass ref) := by
  refine (keeps_read _ _).bind fun v => ?_
  cases v with
  | cls c => exact keeps_pure _
  | _ => exact keeps_fail _ _

theorem keeps_methodScope (parent : Option Class) : Keeps R (methodScope parent) := by
  refine (keeps_gets _).bind fun scope => ?_
  cases parent with
  | none => exact keeps_pure _
  | some c =>
      exact (keeps_newEnv _).bind fun _ => (keeps_onStore fun _ => .define).bind fun _ =>
        keeps_pure _

theorem keeps_declareClass (name : Name) (ref : Option Reference)
    (declarations : List FunctionDecl) : Keeps R (declareClass name ref declarations) := by
  have hrest (parent : Option Class) : Keeps R (do
      define name.text .nil
      let closure ← methodScope parent
      let methods ← makeMethods closure declarations
      let id ← freshIdentity
      define name.text (.cls (.extending ⟨id, name.text, methods⟩ parent))) :=
    (keeps_define _ _).bind fun _ => (keeps_methodScope _).bind fun _ =>
      (keeps_makeMethods _ _).bind fun _ => keeps_freshIdentity.bind fun _ =>
        keeps_define _ _
  cases ref with
  | none => exact hrest none
  | some ref => exact (keeps_superclass ref).map.bind hrest

theorem keeps_checkArity (expected got line : Nat) :
    Keeps R (checkArity expected got line) := by
  unfold checkArity
  split
  · exact keeps_pure _
  · exact keeps_fail _ _

theorem keeps_askHost (f : Native) (arguments : List Value) (line : Nat) :
    Keeps R (askHost f arguments line) := by
  refine keeps_get.bind fun s => ?_
  have hcount : Keeps R (Run.modify fun s : State =>
      { s with nativeCalls := s.nativeCalls + 1 }) :=
    fun _ => .of_ok rfl Tolerant.nativeCalls
  refine hcount.bind fun _ => ?_
  cases s.host.answer f s.nativeCalls arguments with
  | ok value => exact keeps_pure _
  | error message => exact keeps_fail _ _

theorem keeps_ofOperation (result : Except RuntimeFault Value) (line : Nat) :
    Keeps R (ofOperation result line) := by
  cases result with
  | ok value => exact keeps_pure _
  | error fault => exact keeps_fail _ _

theorem keeps_echo (s : Stmt) : Keeps R (echo s) := by
  refine keeps_get.bind fun state => ?_
  cases s with
  | expression e =>
      simp only
      split
      · exact keeps_emit _
      · exact keeps_pure _
  | _ => exact keeps_pure _

end Tolerant

/-- What is executed in another scope ends as it does there, back in the current scope. -/
theorem ensures_within {scope : EnvId} {m : Eval α} {s : State} {Q : α → State → Prop}
    {F : Halt → State → Prop}
    (h : m.Ensures { s with current := scope } (fun a s' => Q a { s' with current := s.current })
      (fun e s' => F e { s' with current := s.current })) : (within scope m).Ensures s Q F := by
  unfold Run.Ensures within at *
  cases hrun : m { s with current := scope } with
  | ok _ _ | fault _ _ =>
      rw [hrun] at h
      exact h
  | exhausted => trivial

/-- With a given fuel, whatever is run keeps the relation. -/
structure KeepsWith (R : Course) (fuel : Nat) : Prop where
  eval (e : Expr) : Keeps R (Eval.eval fuel e)
  evalAll (es : List Expr) : Keeps R (Eval.evalAll fuel es)
  call (callee : Value) (arguments : List Value) (line : Nat) :
    Keeps R (Eval.call fuel callee arguments line)
  invoke (f : Function) (arguments : List Value) : Keeps R (Eval.invoke fuel f arguments)
  exec (s : Stmt) : Keeps R (Eval.exec fuel s)
  execAll (ss : List Stmt) : Keeps R (Eval.execAll fuel ss)

section Steady

variable [Steady R]

theorem keeps_within {scope : EnvId} {m : Eval α} (h : Keeps R m) : Keeps R (within scope m) :=
  fun _ => ensures_within ((h _).mono (fun _ _ => Steady.within) (fun _ _ => Steady.within))

namespace KeepsWith

variable {fuel : Nat}

theorem eval_succ (ih : KeepsWith R fuel) (e : Expr) : Keeps R (Eval.eval (fuel + 1) e) := by
  cases e with
  | literal value => exact keeps_pure _
  | grouping inner => exact ih.eval inner
  | unary op line operand => exact (ih.eval operand).bind fun _ => keeps_ofOperation _ _
  | binary op line left right =>
      exact (ih.eval left).bind fun _ => (ih.eval right).bind fun _ => keeps_ofOperation _ _
  | logical op line left right =>
      refine (ih.eval left).bind fun v => ?_
      cases hdecides : op.decides v with
      | true => exact keeps_pure _
      | false => exact ih.eval right
  | name ref => exact keeps_read _ _
  | assign ref value =>
      exact (ih.eval value).bind fun _ => (keeps_assign _ _).bind fun _ => keeps_pure _
  | call callee line arguments =>
      exact (ih.eval callee).bind fun _ => (ih.evalAll arguments).bind fun _ => ih.call _ _ _
  | get object name =>
      refine (ih.eval object).bind fun v => ?_
      cases v with
      | object o => exact keeps_property _ _
      | _ => exact keeps_fail _ _
  | set object name value =>
      refine (ih.eval object).bind fun v => ?_
      cases v with
      | object o =>
          exact (ih.eval value).bind fun _ => (keeps_onStore fun _ => .setField).bind fun _ =>
            keeps_pure _
      | _ => exact keeps_fail _ _
  | receiver id line => exact keeps_read _ _
  | inherited id line method => exact keeps_inheritedMethod _ _ _

theorem evalAll_succ (ih : KeepsWith R fuel) (es : List Expr) :
    Keeps R (Eval.evalAll (fuel + 1) es) := by
  cases es with
  | nil => exact keeps_pure _
  | cons e es =>
      exact (ih.eval e).bind fun _ => (ih.evalAll es).bind fun _ => keeps_pure _

theorem call_succ (ih : KeepsWith R fuel) (callee : Value) (arguments : List Value)
    (line : Nat) : Keeps R (Eval.call (fuel + 1) callee arguments line) := by
  cases callee with
  | function f => exact (keeps_checkArity _ _ _).bind fun _ => ih.invoke _ _
  | cls c =>
      refine (keeps_checkArity _ _ _).bind fun _ => (keeps_newObject c).bind fun o => ?_
      cases c.findMethod? initializerName with
      | some method =>
          exact (keeps_bindMethod _ _).bind fun _ => (ih.invoke _ _).bind fun _ =>
            keeps_pure _
      | none => exact keeps_pure _
  | native f => exact (keeps_checkArity _ _ _).bind fun _ => keeps_askHost _ _ _
  | _ => exact keeps_fail _ _

theorem invoke_succ (ih : KeepsWith R fuel) (f : Function) (arguments : List Value) :
    Keeps R (Eval.invoke (fuel + 1) f arguments) := by
  refine (keeps_newEnv _).bind fun scope => ?_
  refine (keeps_onStore fun _ => .defineAll).bind fun _ => ?_
  refine (keeps_within (ih.execAll _)).bind fun flow => ?_
  cases f.isInitializer with
  | true => exact keeps_readAt _ _ _
  | false => cases flow <;> exact keeps_pure _

theorem exec_succ (ih : KeepsWith R fuel) (s : Stmt) : Keeps R (Eval.exec (fuel + 1) s) := by
  cases s with
  | expression e =>
      have hnote (v : Value) : Keeps R (Run.modify fun s : State => { s with lastValue := v }) :=
        fun _ => .of_ok rfl Steady.lastValue
      exact (ih.eval e).bind fun v => (hnote v).bind fun _ => keeps_pure _
  | print e => exact (ih.eval e).bind fun _ => (keeps_emit _).bind fun _ => keeps_pure _
  | var name initial =>
      have hdefine (v : Value) : Keeps R (do define name.text v; return Flow.normal) :=
        (keeps_define _ _).bind fun _ => keeps_pure _
      cases initial with
      | some e => exact (ih.eval e).bind hdefine
      | none => exact hdefine .nil
  | block body =>
      exact (keeps_gets _).bind fun _ => (keeps_newEnv _).bind fun _ =>
        keeps_within (ih.execAll body)
  | ifThen condition thenBranch =>
      refine (ih.eval condition).bind fun v => ?_
      cases v.isTruthy with
      | true => exact ih.exec thenBranch
      | false => exact keeps_pure _
  | ifElse condition thenBranch elseBranch =>
      refine (ih.eval condition).bind fun v => ?_
      cases v.isTruthy with
      | true => exact ih.exec thenBranch
      | false => exact ih.exec elseBranch
  | loop condition body =>
      refine (ih.eval condition).bind fun v => ?_
      cases v.isTruthy with
      | true =>
          refine (ih.exec body).bind fun flow => ?_
          cases flow with
          | normal => exact ih.exec (.loop condition body)
          | returning value line => exact keeps_pure _
      | false => exact keeps_pure _
  | function d =>
      exact keeps_freshIdentity.bind fun _ => (keeps_gets _).bind fun _ =>
        (keeps_define _ _).bind fun _ => keeps_pure _
  | giveBack line value =>
      cases value with
      | some e => exact (ih.eval e).bind fun _ => keeps_pure _
      | none => exact keeps_pure _
  | classDef name superclass declarations =>
      exact (keeps_declareClass _ _ _).bind fun _ => keeps_pure _

theorem execAll_succ (ih : KeepsWith R fuel) (ss : List Stmt) :
    Keeps R (Eval.execAll (fuel + 1) ss) := by
  cases ss with
  | nil => exact keeps_pure _
  | cons s ss =>
      refine (ih.exec s).bind fun flow => ?_
      cases flow with
      | normal => exact ih.execAll ss
      | returning value line => exact keeps_pure _

end KeepsWith

theorem keepsWith (fuel : Nat) : KeepsWith R fuel := by
  induction fuel with
  | zero =>
      constructor <;> intros <;> exact keeps_outOfFuel
  | succ fuel ih =>
      exact {
        eval := ih.eval_succ
        evalAll := ih.evalAll_succ
        call := ih.call_succ
        invoke := ih.invoke_succ
        exec := ih.exec_succ
        execAll := ih.execAll_succ }

/-- Running a program keeps every relation that nothing which is run breaks. -/
theorem keeps_runProgram (fuel : Nat) (program : List Stmt) :
    Keeps R (runProgram fuel program) := by
  induction program with
  | nil => exact keeps_pure _
  | cons s ss ih =>
      refine ((keepsWith fuel).exec s).bind fun flow => ?_
      cases flow with
      | normal => exact (keeps_echo s).bind fun _ => ih
      | returning value line => exact keeps_fail _ _

end Steady

theorem keepsPlaceWith (fuel : Nat) : KeepsWith (fun _ => State.Grows) fuel := keepsWith fuel

theorem keepsPlace_runProgram (fuel : Nat) (program : List Stmt) :
    KeepsPlace (runProgram fuel program) := keeps_runProgram fuel program

end Eval

end ScopedScript
