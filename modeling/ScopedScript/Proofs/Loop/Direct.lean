import ScopedScript.Eval.Basic
import ScopedScript.Proofs.Relabelling.Syntax
import ScopedScript.Syntax.Statements

/-!
# For loops run directly

A `for` is read as the statement that it abbreviates. What it is meant to do is said here without
that statement. The loop gets one scope, in which its initial statement is executed once. Condition,
body and step come in turn in this scope, until the condition is false or the body does not end
normally. So the step sees no name that the body declares, and there is one loop variable, shared by
all turns and by the functions that are made in them.
-/

namespace ScopedScript

/-- The parts of a `for`. -/
structure ForLoop where
  initial : Option Stmt
  condition : Option Expr
  step : Option Expr
  body : Stmt

namespace ForLoop

/-- What is executed again and again while the condition is true. -/
def turn (loop : ForLoop) : Stmt :=
  match loop.step with
  | some step => .block [loop.body, .expression step]
  | none => loop.body

/-- The `while` that a `for` becomes. -/
def repetition (loop : ForLoop) : Stmt :=
  .loop (loop.condition.getD (.literal (.bool true))) loop.turn

/-- The statement that a `for` abbreviates. -/
def stmt (loop : ForLoop) : Stmt :=
  .forLoop loop.initial loop.condition loop.step loop.body

/-- A loop whose references have other numbers. -/
def renumber (node : NodeId → NodeId) (loop : ForLoop) : ForLoop where
  initial := loop.initial.map (Stmt.relabel (.renumber node))
  condition := loop.condition.map (Expr.relabel (.renumber node))
  step := loop.step.map (Expr.relabel (.renumber node))
  body := loop.body.relabel (.renumber node)

/-- The scopes around the condition, the step and the body: the scope of the loop, in which the
initial statement has been executed, and those around the loop. -/
def scopes (loop : ForLoop) (Γ : Scopes) : Scopes :=
  match loop.initial with
  | some initial => initial.after ([] :: Γ)
  | none => [] :: Γ

/-- What is found for the references of the initial statement. -/
def initialRecords (loop : ForLoop) (Γ : Scopes) : List Record :=
  match loop.initial with
  | some initial => initial.records ([] :: Γ)
  | none => []

/-- What is found for the references of the parts that come in turn. -/
def turnRecords (loop : ForLoop) (Γ : Scopes) : List Record :=
  Expr.recordsOption Γ loop.condition ++ (loop.body.records Γ ++ Expr.recordsOption Γ loop.step)

/-- What is found for the references of a loop, whose parts stand in its one scope. -/
def records (loop : ForLoop) (Γ : Scopes) : List Record :=
  loop.initialRecords Γ ++ loop.turnRecords (loop.scopes Γ)

end ForLoop

namespace Eval

/-- Whether a loop goes on: it does if it has no condition. -/
def goesOn (fuel : Nat) : Option Expr → Eval Bool
  | none => pure true
  | some condition => do
    let v ← eval fuel condition
    return v.isTruthy

/-- Take the step of a loop, if it has one. -/
def takeStep (fuel : Nat) : Option Expr → Eval Unit
  | none => pure ()
  | some step => do
    let _ ← eval fuel step
    return ()

/-- Execute the body of a loop and, if it ends normally, take the step. -/
def takeTurn (fuel : Nat) (loop : ForLoop) : Eval Flow := do
  match ← exec fuel loop.body with
  | .normal => do
    takeStep fuel loop.step
    return .normal
  | flow => return flow

/-- Take turns, all in the same scope, until the condition is false or a turn does not end
normally. -/
def rounds : Nat → ForLoop → Eval Flow
  | 0, _ => Run.outOfFuel
  | fuel + 1, loop => do
    if ← goesOn fuel loop.condition then
      match ← takeTurn fuel loop with
      | .normal => rounds fuel loop
      | flow => return flow
    else return .normal

/-- Execute a loop in a scope of its own. -/
def runLoop (fuel : Nat) (loop : ForLoop) : Eval Flow := do
  let outer ← Run.gets State.current
  let scope ← newEnv outer
  within scope do
    match loop.initial with
    | none => rounds fuel loop
    | some initial =>
      match ← exec fuel initial with
      | .normal => rounds fuel loop
      | flow => return flow

end Eval

end ScopedScript
