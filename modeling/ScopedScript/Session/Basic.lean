import ScopedScript.Eval.Basic
import ScopedScript.Session.Error
import ScopedScript.Syntax.Statements

/-!
# Sessions

A session runs one source text after the other in the same state, so each sees what the ones before
it declared. References are numbered on from one text to the next: a function that was declared
earlier keeps the distances of its own references.
-/

namespace ScopedScript

/-- The state of a session, and the first number that no reference has yet. -/
structure Session where
  state : State
  nextId : NodeId

namespace Session

/-- The session in which nothing has been run yet. -/
def initial (host : Host) (sink : Sink) : Session := ⟨.initial host sink, 0⟩

/-- Take note of numbers that references have now. -/
def countIds {ε : Type} (nextId : NodeId) : Run ε Session Unit :=
  Run.modify fun s => { s with nextId := nextId }

/-- Add distances to those that are known. -/
def addDistances {ε : Type} (distances : Distances) : Run ε Session Unit :=
  Run.modify fun s =>
    { s with state := { s.state with distances := s.state.distances ∪ distances } }

/-- Run a computation of a running program. -/
def evaluate {α : Type} (m : Eval α) : Run ProgramError Session α := fun s =>
  let nextId := s.nextId
  match m s.state with
  | .ok a state => .ok a ⟨state, nextId⟩
  | .fault reason state => .fault (.halt reason) ⟨state, nextId⟩
  | .exhausted => .exhausted

/-- Take note of the distances of a program, unless it breaks a rule of scoping. -/
def accept (program : List Stmt) : Run ProgramError Session Unit := do
  let distances ← Run.ofExcept ((resolve program).mapError .scope)
  addDistances distances

/-- The program that a source text is, ready to be run. The first thing that is wrong with the text
is what is reported. -/
def prepare (source : String) : Run ProgramError Session (List Stmt) := do
  let scanned := scan source
  match scanned.errors with
  | error :: _ => Run.fail (.lex error)
  | [] =>
    let s ← Run.get
    let parsed := readProgram scanned.tokens s.nextId
    countIds parsed.nextId
    let program ← Run.ofExcept (parsed.result.mapError .parse)
    accept program
    return program

/-- Run a source text. -/
def run (fuel : Nat) (source : String) : Run ProgramError Session Unit := do
  let program ← prepare source
  evaluate (Eval.runProgram fuel program)

/-- The program that a typed-in source text is, ready to be run. Everything that is wrong with its
tokens and its syntax is reported, or else the first place that breaks a rule of scoping. -/
def prepareLine (source : String) : Run (List ProgramError) Session (List Stmt) := do
  let scanned := scan source
  let s ← Run.get
  let parsed := readPastFaults scanned.tokens s.nextId
  countIds parsed.nextId
  match scanned.errors.map .lex ++ (errorsOf parsed.result).map .parse with
  | [] =>
    let program := statementsOf parsed.result
    Run.mapError ([·]) (accept program)
    return program
  | errors => Run.fail errors

/-- Run a source text that was typed in. -/
def runLine (fuel : Nat) (source : String) : Run (List ProgramError) Session Unit := do
  let program ← prepareLine source
  Run.mapError ([·]) (evaluate (Eval.runProgram fuel program))

/-- Print the values of expression statements from now on, or do not. -/
def setEcho (echo : Bool) (s : Session) : Session :=
  { s with state := { s.state with echo := echo } }

end Session

end ScopedScript
