import ScopedScript.Session.Basic
import ScopedScript.Text.WhiteSpace
import ScopedScript.Text.Lines

/-!
# Interactive sessions

An interactive session runs the lines of an input one by one and prints the values of expression
statements. Prompts and messages go to a sink of their own, which may refuse them. A line that is
wrong does not end the session; the word `exit`, the end of the input and a line that is not text
do.
-/

namespace ScopedScript

/-- A session with the sink that its prompts and messages go to. -/
structure Console where
  session : Session
  messages : Sink

/-- Why an interactive session stopped before its end. -/
inductive ConsoleError where
  /-- A prompt or a message was refused. -/
  | refused (reason : String)
  /-- A line is not text. -/
  | notText
  deriving DecidableEq, Repr

/-- The message that reports why an interactive session stopped. -/
def ConsoleError.message : ConsoleError → String
  | refused reason => reason
  | notText => "stream did not contain valid UTF-8"

namespace Console

/-- What asks for a line. -/
def prompt : String := "> "

/-- The line that ends a session, with or without white space around it. -/
def exitWord : String := "exit"

/-- Write a prompt or a message. -/
def say (text : String) : Run ConsoleError Console Unit := fun c =>
  let (refusal, messages) := c.messages.write text
  let c := { c with messages := messages }
  match refusal with
  | some reason => .fault (.refused reason) c
  | none => .ok () c

/-- Report what is wrong with a line. -/
def report : List ProgramError → Run ConsoleError Console Unit
  | [] => return
  | error :: errors => do
    say (error.message ++ "\n")
    report errors

/-- Run a line, and report what is wrong with it. -/
def runLine (fuel : Nat) (line : String) : Run ConsoleError Console Unit := fun c =>
  let messages := c.messages
  match c.session.runLine fuel line with
  | .ok _ session => .ok () ⟨session, messages⟩
  | .fault errors session => report errors ⟨session, messages⟩
  | .exhausted => .exhausted

/-- Take a line; the answer is whether the session goes on. -/
def step (fuel : Nat) (bytes : List UInt8) : Run ConsoleError Console Bool := do
  match String.fromUTF8? ⟨bytes.toArray⟩ with
  | none => Run.fail .notText
  | some line =>
    if String.ofList (Text.trim line.toList) = exitWord then return false
    runLine fuel line
    return true

/-- Take lines, each after a prompt. After the last one, a prompt is left unanswered. -/
def runLines (fuel : Nat) : List (List UInt8) → Run ConsoleError Console Unit
  | [] => do
    say prompt
    say "\n"
  | bytes :: rest => do
    say prompt
    if ← step fuel bytes then runLines fuel rest

/-- The console on which a session becomes interactive. -/
def start (session : Session) (messages : Sink) : Console := ⟨session.setEcho true, messages⟩

/-- Run the lines of an input. -/
def run (fuel : Nat) (input : ByteArray) : Run ConsoleError Console Unit :=
  runLines fuel (Text.lines input.toList)

end Console

end ScopedScript
