import ScopedScript.Proofs.Eval.Growth

/-!
# What expression statements leave behind

An expression statement is executed for what its expression does, but its value is kept for a while:
it is the last value until another expression statement is through. Here the values of expression
statements are noted in the order in which their evaluation is completed, those at the top level of
a program apart from all others, by following a run of the program step by step. However the run
ends, the last value is then that of the last note, whether it is of a statement at the top level or
not.
-/

namespace ScopedScript

/-- The value of an expression statement whose evaluation was completed. -/
inductive Note where
  /-- The statement is one of the statements of a program. -/
  | atTop (value : Value)
  /-- The statement is part of another one, or of the body of a function. -/
  | nested (value : Value)

namespace Note

/-- The noted value. -/
def value : Note → Value
  | atTop value | nested value => value

/-- Whether the noted value is that of a statement at the top level. -/
def isAtTop : Note → Bool
  | atTop _ => true
  | nested _ => false

end Note

/-- The value of the last of some notes, or a given one if there are none. -/
def lastOf (notes : List Note) (value : Value) : Value :=
  (notes.getLast?.map Note.value).getD value

theorem lastOf_singleton (note : Note) (v : Value) : lastOf [note] v = note.value := rfl

theorem lastOf_append (notes notes' : List Note) (v : Value) :
    lastOf (notes ++ notes') v = lastOf notes' (lastOf notes v) := by
  unfold lastOf
  rw [List.getLast?_append]
  cases notes'.getLast? <;> rfl

/-- What is noted in the course of a computation, given the state in which it is begun. -/
abbrev Notes := State → List Note

namespace Notes

/-- Nothing is noted. -/
def none : Notes := fun _ => []

/-- Some notes of a computation, and then those of what is made of its result, if it ends well. -/
def andThen {α : Type} (notes : Notes) (m : Eval α) (rest : α → Notes) : Notes := fun s =>
  notes s ++
    match m s with
    | .ok a s' => rest a s'
    | .fault _ _ | .exhausted => []

/-- The notes of what is made of the result of a computation that notes nothing. -/
def after {α : Type} (m : Eval α) (rest : α → Notes) : Notes := none.andThen m rest

/-- What is noted of something that is executed in another scope. -/
def inScope (scope : EnvId) (notes : Notes) : Notes := fun s => notes { s with current := scope }

end Notes

namespace Eval

open Notes (after inScope)

mutual

/-- What is noted in the course of the evaluation of an expression: the expression statements in
the bodies of the functions that it calls. -/
def evalNotes : Nat → Expr → Notes
  | 0, _ => .none
  | fuel + 1, e =>
    match e with
    | .literal _ | .name _ | .receiver _ _ | .inherited _ _ _ => .none
    | .grouping inner => evalNotes fuel inner
    | .unary _ _ operand => evalNotes fuel operand
    | .binary _ _ left right =>
      (evalNotes fuel left).andThen (eval fuel left) fun _ => evalNotes fuel right
    | .logical op _ left right =>
      (evalNotes fuel left).andThen (eval fuel left) fun v =>
        if op.decides v then .none else evalNotes fuel right
    | .assign _ value => evalNotes fuel value
    | .call callee line arguments =>
      (evalNotes fuel callee).andThen (eval fuel callee) fun f =>
        (evalAllNotes fuel arguments).andThen (evalAll fuel arguments) fun values =>
          callNotes fuel f values line
    | .get object _ => evalNotes fuel object
    | .set object _ value =>
      (evalNotes fuel object).andThen (eval fuel object) fun
        | .object _ => evalNotes fuel value
        | _ => .none

/-- What is noted in the course of the evaluation of expressions. -/
def evalAllNotes : Nat → List Expr → Notes
  | 0, _ => .none
  | _ + 1, [] => .none
  | fuel + 1, e :: es => (evalNotes fuel e).andThen (eval fuel e) fun _ => evalAllNotes fuel es

/-- What is noted in the course of a call. -/
def callNotes : Nat → Value → List Value → Nat → Notes
  | 0, _, _, _ => .none
  | fuel + 1, callee, arguments, line =>
    match callee with
    | .function f =>
      after (checkArity f.arity arguments.length line) fun _ => invokeNotes fuel f arguments
    | .cls c =>
      after (checkArity c.arity arguments.length line) fun _ => after (newObject c) fun o =>
        match c.findMethod? initializerName with
        | some method => after (bindMethod method o) fun f => invokeNotes fuel f arguments
        | none => .none
    | _ => .none

/-- What is noted in the course of a call of a declared function. -/
def invokeNotes : Nat → Function → List Value → Notes
  | 0, _, _ => .none
  | fuel + 1, f, arguments =>
    after (newEnv f.closure) fun scope =>
      after (onStore fun store =>
          store.defineAll scope (f.declaration.parameters.map Name.text) arguments) fun _ =>
        inScope scope (execAllNotes fuel f.declaration.body)

/-- What is noted in the course of the execution of a statement, by itself or by what it
executes. -/
def execNotes : Nat → Stmt → Notes
  | 0, _ => .none
  | fuel + 1, s =>
    match s with
    | .expression e => (evalNotes fuel e).andThen (eval fuel e) fun v _ => [.nested v]
    | .print e | .var _ (some e) | .giveBack _ (some e) => evalNotes fuel e
    | .var _ none | .giveBack _ none | .function _ | .classDef _ _ _ => .none
    | .block body =>
      after (Run.gets State.current) fun outer => after (newEnv outer) fun scope =>
        inScope scope (execAllNotes fuel body)
    | .ifThen condition thenBranch =>
      (evalNotes fuel condition).andThen (eval fuel condition) fun v =>
        if v.isTruthy then execNotes fuel thenBranch else .none
    | .ifElse condition thenBranch elseBranch =>
      (evalNotes fuel condition).andThen (eval fuel condition) fun v =>
        if v.isTruthy then execNotes fuel thenBranch else execNotes fuel elseBranch
    | .loop condition body =>
      (evalNotes fuel condition).andThen (eval fuel condition) fun v =>
        if v.isTruthy then
          (execNotes fuel body).andThen (exec fuel body) fun
            | .normal => execNotes fuel (.loop condition body)
            | .returning _ _ => .none
        else .none

/-- What is noted in the course of the execution of statements, up to a `return`. -/
def execAllNotes : Nat → List Stmt → Notes
  | 0, _ => .none
  | _ + 1, [] => .none
  | fuel + 1, s :: ss =>
    (execNotes fuel s).andThen (exec fuel s) fun
      | .normal => execAllNotes fuel ss
      | .returning _ _ => .none

end

/-- What is noted in the course of the execution of a statement at the top level. -/
def topNotes : Nat → Stmt → Notes
  | fuel + 1, .expression e => (evalNotes fuel e).andThen (eval fuel e) fun v _ => [.atTop v]
  | fuel, s => execNotes fuel s

/-- What is noted in the course of a run of a program. -/
def programNotes (fuel : Nat) : List Stmt → Notes
  | [] => .none
  | s :: ss =>
    (topNotes fuel s).andThen (exec fuel s) fun
      | .normal => after (echo s) fun _ => programNotes fuel ss
      | .returning _ _ => .none

end Eval

/-- A state with the same last value. -/
def State.SameLast (s s' : State) : Prop := s'.lastValue = s.lastValue

namespace Eval

variable {α β : Type}

instance : Tolerant fun _ => State.SameLast where
  refl _ := rfl
  trans h₁ h₂ := Eq.trans h₂ h₁
  stop _ _ _ := rfl
  store _ := rfl
  taken _ := rfl
  refused _ := rfl
  nativeCalls := rfl
  nextIdentity := rfl

/-- However a computation ends, the last value is the one that there was before. -/
abbrev KeepsLast (m : Eval α) : Prop := Keeps (fun _ => State.SameLast) m

/-- However a computation ends, the last value is then that of the last note of it, or the one that
there was before if nothing is noted. -/
def Explains (notes : Notes) (m : Eval α) : Prop :=
  ∀ s, m.Ensures s (fun _ s' => s'.lastValue = lastOf (notes s) s.lastValue)
    (fun _ s' => s'.lastValue = lastOf (notes s) s.lastValue)

namespace Explains

variable {notes : Notes} {m : Eval α} {f : α → Eval β} {rest : α → Notes}

theorem none_of_keeps (h : KeepsLast m) : Explains .none m := h

theorem outOfFuel : Explains notes (Run.outOfFuel : Eval α) := fun _ => .of_exhausted rfl

theorem bind (h : Explains notes m) (hf : ∀ a, Explains (rest a) (f a)) :
    Explains (notes.andThen m rest) (m >>= f) := by
  intro s
  have hs := h s
  unfold Notes.andThen
  cases hm : m s with
  | ok a s' =>
      refine .bind_of_ok hm ?_
      simp only [lastOf_append]
      rw [← hs.ok hm]
      exact hf a s'
  | fault e s' =>
      refine .bind_of_fault hm ?_
      simp only [List.append_nil]
      exact hs.fault hm
  | exhausted => exact .bind_of_exhausted hm

/-- What is noted of a computation whose result is only put to use. -/
theorem bind_keeps (h : Explains notes m) (hf : ∀ a, KeepsLast (f a)) :
    Explains notes (m >>= f) := by
  intro s
  refine (h s).bind fun a s' hs' => ?_
  have hsame := hf a s'
  rw [← hs']
  exact hsame

theorem after (h : KeepsLast m) (hf : ∀ a, Explains (rest a) (f a)) :
    Explains (.after m rest) (m >>= f) := (none_of_keeps h).bind hf

theorem inScope {scope : EnvId} (h : Explains notes m) :
    Explains (notes.inScope scope) (within scope m) :=
  fun s => ensures_within (h { s with current := scope })

/-- An expression statement whose evaluation is completed is noted. -/
theorem singleton {note : Note} {v : Value} (h : note.value = v) (flow : Flow) :
    Explains (fun _ => [note]) (do
      Run.modify fun s : State => { s with lastValue := v }
      return flow) := by
  intro s
  refine .of_ok rfl ?_
  rw [lastOf_singleton, h]

end Explains

/-- With a given fuel, notes say what the last value is. -/
structure ExplainsWith (fuel : Nat) : Prop where
  eval (e : Expr) : Explains (evalNotes fuel e) (Eval.eval fuel e)
  evalAll (es : List Expr) : Explains (evalAllNotes fuel es) (Eval.evalAll fuel es)
  call (callee : Value) (arguments : List Value) (line : Nat) :
    Explains (callNotes fuel callee arguments line) (Eval.call fuel callee arguments line)
  invoke (f : Function) (arguments : List Value) :
    Explains (invokeNotes fuel f arguments) (Eval.invoke fuel f arguments)
  exec (s : Stmt) : Explains (execNotes fuel s) (Eval.exec fuel s)
  execAll (ss : List Stmt) : Explains (execAllNotes fuel ss) (Eval.execAll fuel ss)

namespace ExplainsWith

variable {fuel : Nat}

theorem eval_succ (ih : ExplainsWith fuel) (e : Expr) :
    Explains (evalNotes (fuel + 1) e) (Eval.eval (fuel + 1) e) := by
  cases e with
  | literal value => exact .none_of_keeps (keeps_pure _)
  | grouping inner => exact ih.eval inner
  | unary op line operand => exact (ih.eval operand).bind_keeps fun _ => keeps_ofOperation _ _
  | binary op line left right =>
      exact (ih.eval left).bind fun _ =>
        (ih.eval right).bind_keeps fun _ => keeps_ofOperation _ _
  | logical op line left right =>
      refine (ih.eval left).bind fun v => ?_
      cases hdecides : op.decides v with
      | true => exact .none_of_keeps (keeps_pure _)
      | false => exact ih.eval right
  | name ref => exact .none_of_keeps (keeps_read _ _)
  | assign ref value =>
      exact (ih.eval value).bind_keeps fun _ => (keeps_assign _ _).bind fun _ => keeps_pure _
  | call callee line arguments =>
      exact (ih.eval callee).bind fun _ => (ih.evalAll arguments).bind fun _ => ih.call _ _ _
  | get object name =>
      refine (ih.eval object).bind_keeps fun v => ?_
      cases v with
      | object o => exact keeps_property _ _
      | _ => exact keeps_fail _ _
  | set object name value =>
      refine (ih.eval object).bind fun v => ?_
      cases v with
      | object o =>
          exact (ih.eval value).bind_keeps fun _ =>
            (keeps_onStore fun _ => .setField).bind fun _ => keeps_pure _
      | _ => exact .none_of_keeps (keeps_fail _ _)
  | receiver id line => exact .none_of_keeps (keeps_read _ _)
  | inherited id line method => exact .none_of_keeps (keeps_inheritedMethod _ _ _)

theorem evalAll_succ (ih : ExplainsWith fuel) (es : List Expr) :
    Explains (evalAllNotes (fuel + 1) es) (Eval.evalAll (fuel + 1) es) := by
  cases es with
  | nil => exact .none_of_keeps (keeps_pure _)
  | cons e es =>
      exact (ih.eval e).bind fun _ => (ih.evalAll es).bind_keeps fun _ => keeps_pure _

theorem call_succ (ih : ExplainsWith fuel) (callee : Value) (arguments : List Value)
    (line : Nat) : Explains (callNotes (fuel + 1) callee arguments line)
      (Eval.call (fuel + 1) callee arguments line) := by
  cases callee with
  | function f => exact .after (keeps_checkArity _ _ _) fun _ => ih.invoke _ _
  | cls c =>
      refine .after (keeps_checkArity _ _ _) fun _ => .after (keeps_newObject c) fun o => ?_
      cases c.findMethod? initializerName with
      | some method =>
          exact .after (keeps_bindMethod _ _) fun _ =>
            (ih.invoke _ _).bind_keeps fun _ => keeps_pure _
      | none => exact .none_of_keeps (keeps_pure _)
  | native f =>
      exact .none_of_keeps ((keeps_checkArity _ _ _).bind fun _ => keeps_askHost _ _ _)
  | _ => exact .none_of_keeps (keeps_fail _ _)

theorem invoke_succ (ih : ExplainsWith fuel) (f : Function) (arguments : List Value) :
    Explains (invokeNotes (fuel + 1) f arguments) (Eval.invoke (fuel + 1) f arguments) := by
  refine .after (keeps_newEnv _) fun scope => .after (keeps_onStore fun _ => .defineAll) fun _ => ?_
  refine (Explains.inScope (ih.execAll _)).bind_keeps fun flow => ?_
  cases f.isInitializer with
  | true => exact keeps_readAt _ _ _
  | false => cases flow <;> exact keeps_pure _

theorem exec_succ (ih : ExplainsWith fuel) (s : Stmt) :
    Explains (execNotes (fuel + 1) s) (Eval.exec (fuel + 1) s) := by
  cases s with
  | expression e => exact (ih.eval e).bind fun v => .singleton rfl _
  | print e =>
      exact (ih.eval e).bind_keeps fun _ => (keeps_emit _).bind fun _ => keeps_pure _
  | var name initial =>
      have hdefine (v : Value) :
          KeepsLast (do define name.text v; return Flow.normal) :=
        (keeps_define _ _).bind fun _ => keeps_pure _
      cases initial with
      | some e => exact (ih.eval e).bind_keeps hdefine
      | none => exact .none_of_keeps (hdefine .nil)
  | block body =>
      exact .after (keeps_gets _) fun _ => .after (keeps_newEnv _) fun _ =>
        .inScope (ih.execAll body)
  | ifThen condition thenBranch =>
      refine (ih.eval condition).bind fun v => ?_
      cases v.isTruthy with
      | true => exact ih.exec thenBranch
      | false => exact .none_of_keeps (keeps_pure _)
  | ifElse condition thenBranch elseBranch =>
      refine (ih.eval condition).bind fun v => ?_
      cases v.isTruthy with
      | true => exact ih.exec thenBranch
      | false => exact ih.exec elseBranch
  | loop condition body =>
      refine (ih.eval condition).bind fun v => ?_
      cases v.isTruthy with
      | true =>
          refine (ih.exec body).bind fun flow => ?_
          cases flow with
          | normal => exact ih.exec (.loop condition body)
          | returning value line => exact .none_of_keeps (keeps_pure _)
      | false => exact .none_of_keeps (keeps_pure _)
  | function d =>
      exact .none_of_keeps (keeps_freshIdentity.bind fun _ => (keeps_gets _).bind fun _ =>
        (keeps_define _ _).bind fun _ => keeps_pure _)
  | giveBack line value =>
      cases value with
      | some e => exact (ih.eval e).bind_keeps fun _ => keeps_pure _
      | none => exact .none_of_keeps (keeps_pure _)
  | classDef name superclass declarations =>
      exact .none_of_keeps ((keeps_declareClass _ _ _).bind fun _ => keeps_pure _)

theorem execAll_succ (ih : ExplainsWith fuel) (ss : List Stmt) :
    Explains (execAllNotes (fuel + 1) ss) (Eval.execAll (fuel + 1) ss) := by
  cases ss with
  | nil => exact .none_of_keeps (keeps_pure _)
  | cons s ss =>
      refine (ih.exec s).bind fun flow => ?_
      cases flow with
      | normal => exact ih.execAll ss
      | returning value line => exact .none_of_keeps (keeps_pure _)

end ExplainsWith

theorem explainsWith (fuel : Nat) : ExplainsWith fuel := by
  induction fuel with
  | zero => constructor <;> intros <;> exact .outOfFuel
  | succ fuel ih =>
      exact {
        eval := ih.eval_succ
        evalAll := ih.evalAll_succ
        call := ih.call_succ
        invoke := ih.invoke_succ
        exec := ih.exec_succ
        execAll := ih.execAll_succ }

theorem explains_top (fuel : Nat) (s : Stmt) : Explains (topNotes fuel s) (exec fuel s) := by
  cases fuel with
  | zero => exact .outOfFuel
  | succ fuel =>
      cases s with
      | expression e => exact ((explainsWith fuel).eval e).bind fun v => .singleton rfl _
      | _ => exact (explainsWith (fuel + 1)).exec _

/-- However a run of a program ends, the last value is then that of the last note of the run. -/
theorem explains_runProgram (fuel : Nat) (program : List Stmt) :
    Explains (programNotes fuel program) (runProgram fuel program) := by
  induction program with
  | nil => exact .none_of_keeps (keeps_pure _)
  | cons s ss ih =>
      refine (explains_top fuel s).bind fun flow => ?_
      cases flow with
      | normal => exact .after (keeps_echo s) fun _ => ih
      | returning value line => exact .none_of_keeps (keeps_fail _ _)

end Eval

end ScopedScript
