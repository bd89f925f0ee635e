import ScopedScript.Eval.Basic
import ScopedScript.Proofs.Outcome

/-!
# Fuel

More fuel never changes how a computation ends. What is evaluated or executed either runs out of
fuel or does what it does with any larger amount, so how a program ends is a matter of the program
and of the state it is run in, and not of the fuel.
-/

namespace ScopedScript

namespace Run

variable {ε σ α β : Type}

/-- `m'` ends as `m` does, unless `m` runs out of fuel. -/
def Below (m m' : Run ε σ α) : Prop := ∀ s, m s ≠ .exhausted → m' s = m s

namespace Below

variable {m m' m'' : Run ε σ α} {f f' : α → Run ε σ β}

theorem refl (m : Run ε σ α) : m.Below m := fun _ _ => rfl

theorem trans (h : m.Below m') (h' : m'.Below m'') : m.Below m'' := by
  intro s hne
  have hs := h s hne
  rw [← hs] at hne
  exact (h' s hne).trans hs

theorem outOfFuel (m : Run ε σ α) : (Run.outOfFuel : Run ε σ α).Below m :=
  fun _ hne => (hne rfl).elim

theorem bind (h : m.Below m') (hf : ∀ a, (f a).Below (f' a)) : (m >>= f).Below (m' >>= f') := by
  intro s hne
  have hm : m s ≠ .exhausted := by
    intro hm
    rw [bind_apply, hm] at hne
    exact hne rfl
  rw [bind_apply] at hne
  rw [bind_apply, bind_apply, h s hm]
  cases hend : m s with
  | ok a t =>
      rw [hend] at hne
      exact hf a t hne
  | fault e t => rfl
  | exhausted => rfl

/-- What follows a computation that is the same on both sides. -/
theorem after (m : Run ε σ α) (hf : ∀ a, (f a).Below (f' a)) : (m >>= f).Below (m >>= f') :=
  (refl m).bind hf

end Below

end Run

namespace Eval

open Run (Below)

theorem below_within {α : Type} {scope : EnvId} {m m' : Eval α} (h : Below m m') :
    Below (within scope m) (within scope m') := by
  intro s hne
  have hm : m { s with current := scope } ≠ .exhausted := by
    intro hm
    unfold within at hne
    rw [hm] at hne
    exact hne rfl
  unfold within
  rw [h _ hm]

/-- One more unit of fuel changes nothing but that there may be enough now. -/
structure BelowNext (fuel : Nat) : Prop where
  eval (e : Expr) : Below (Eval.eval fuel e) (Eval.eval (fuel + 1) e)
  evalAll (es : List Expr) : Below (Eval.evalAll fuel es) (Eval.evalAll (fuel + 1) es)
  call (callee : Value) (arguments : List Value) (line : Nat) :
    Below (Eval.call fuel callee arguments line) (Eval.call (fuel + 1) callee arguments line)
  invoke (f : Function) (arguments : List Value) :
    Below (Eval.invoke fuel f arguments) (Eval.invoke (fuel + 1) f arguments)
  exec (s : Stmt) : Below (Eval.exec fuel s) (Eval.exec (fuel + 1) s)
  execAll (ss : List Stmt) : Below (Eval.execAll fuel ss) (Eval.execAll (fuel + 1) ss)

namespace BelowNext

variable {fuel : Nat}

theorem eval_succ (ih : BelowNext fuel) (e : Expr) :
    Below (Eval.eval (fuel + 1) e) (Eval.eval (fuel + 2) e) := by
  cases e with
  | literal | name | receiver | inherited => exact .refl _
  | grouping inner => exact ih.eval inner
  | unary op line operand => exact (ih.eval operand).bind fun _ => .refl _
  | binary op line left right =>
      exact (ih.eval left).bind fun _ => (ih.eval right).bind fun _ => .refl _
  | logical op line left right =>
      refine (ih.eval left).bind fun v => ?_
      cases hdecides : op.decides v with
      | true => exact .refl _
      | false => exact ih.eval right
  | assign ref value => exact (ih.eval value).bind fun _ => .refl _
  | call callee line arguments =>
      exact (ih.eval callee).bind fun _ => (ih.evalAll arguments).bind fun _ => ih.call _ _ _
  | get object name => exact (ih.eval object).bind fun _ => .refl _
  | set object name value =>
      refine (ih.eval object).bind fun v => ?_
      cases v with
      | object o => exact (ih.eval value).bind fun _ => .refl _
      | _ => exact .refl _

theorem evalAll_succ (ih : BelowNext fuel) (es : List Expr) :
    Below (Eval.evalAll (fuel + 1) es) (Eval.evalAll (fuel + 2) es) := by
  cases es with
  | nil => exact .refl _
  | cons e es => exact (ih.eval e).bind fun _ => (ih.evalAll es).bind fun _ => .refl _

theorem call_succ (ih : BelowNext fuel) (callee : Value) (arguments : List Value) (line : Nat) :
    Below (Eval.call (fuel + 1) callee arguments line)
      (Eval.call (fuel + 2) callee arguments line) := by
  cases callee with
  | function f => exact .after _ fun _ => ih.invoke _ _
  | cls c =>
      refine .after _ fun _ => .after _ fun o => ?_
      cases c.findMethod? initializerName with
      | some method => exact .after _ fun _ => (ih.invoke _ _).bind fun _ => .refl _
      | none => exact .refl _
  | _ => exact .refl _

theorem invoke_succ (ih : BelowNext fuel) (f : Function) (arguments : List Value) :
    Below (Eval.invoke (fuel + 1) f arguments) (Eval.invoke (fuel + 2) f arguments) :=
  .after _ fun _ => .after _ fun _ => (below_within (ih.execAll _)).bind fun _ => .refl _

theorem exec_succ (ih : BelowNext fuel) (s : Stmt) :
    Below (Eval.exec (fuel + 1) s) (Eval.exec (fuel + 2) s) := by
  cases s with
  | expression e | print e => exact (ih.eval e).bind fun _ => .refl _
  | var name initial =>
      cases initial with
      | some e => exact (ih.eval e).bind fun _ => .refl _
      | none => exact .refl _
  | block body => exact .after _ fun _ => .after _ fun _ => below_within (ih.execAll body)
  | ifThen condition thenBranch =>
      refine (ih.eval condition).bind fun v => ?_
      cases v.isTruthy with
      | true => exact ih.exec thenBranch
      | false => exact .refl _
  | ifElse condition thenBranch elseBranch =>
      refine (ih.eval condition).bind fun v => ?_
      cases v.isTruthy with
      | true => exact ih.exec thenBranch
      | false => exact ih.exec elseBranch
  | loop condition body =>
      refine (ih.eval condition).bind fun v => ?_
      cases v.isTruthy with
      | true =>
          refine (ih.exec body).bind fun flow => ?_
          cases flow with
          | normal => exact ih.exec (.loop condition body)
          | returning value line => exact .refl _
      | false => exact .refl _
  | giveBack line value =>
      cases value with
      | some e => exact (ih.eval e).bind fun _ => .refl _
      | none => exact .refl _
  | function | classDef => exact .refl _

theorem execAll_succ (ih : BelowNext fuel) (ss : List Stmt) :
    Below (Eval.execAll (fuel + 1) ss) (Eval.execAll (fuel + 2) ss) := by
  cases ss with
  | nil => exact .refl _
  | cons s ss =>
      refine (ih.exec s).bind fun flow => ?_
      cases flow with
      | normal => exact ih.execAll ss
      | returning value line => exact .refl _

end BelowNext

theorem belowNext (fuel : Nat) : BelowNext fuel := by
  induction fuel with
  | zero => constructor <;> intros <;> exact .outOfFuel _
  | succ fuel ih =>
      exact {
        eval := ih.eval_succ
        evalAll := ih.evalAll_succ
        call := ih.call_succ
        invoke := ih.invoke_succ
        exec := ih.exec_succ
        execAll := ih.execAll_succ }

theorem below_exec {n m : Nat} (h : n ≤ m) (s : Stmt) : Below (exec n s) (exec m s) := by
  induction h with
  | refl => exact .refl _
  | step _ ih => exact ih.trans ((belowNext _).exec s)

/-- A program that ends with some amount of fuel ends so with any larger one. -/
theorem below_runProgram {n m : Nat} (h : n ≤ m) (program : List Stmt) :
    Below (runProgram n program) (runProgram m program) := by
  induction program with
  | nil => exact .refl _
  | cons s ss ih =>
      refine (below_exec h s).bind fun flow => ?_
      cases flow with
      | normal => exact .after _ fun _ => ih
      | returning value line => exact .refl _

/-- A program ends in one way, whatever amounts of fuel it is given that suffice. -/
theorem runProgram_eq_of_ne_exhausted {n m : Nat} {program : List Stmt} {s : State}
    (hn : runProgram n program s ≠ .exhausted) (hm : runProgram m program s ≠ .exhausted) :
    runProgram n program s = runProgram m program s := by
  rcases Nat.le_total n m with h | h
  · exact (below_runProgram h program s hn).symm
  · exact below_runProgram h program s hm

end Eval

end ScopedScript
