import Std.Time.DateTime.Timestamp
import ScopedScript.Command.Basic

/-!
# The program

Carries out what the command line asks for. A file is run statement by statement and an interactive
session line by line: after each, what was printed is written out, and before each, the clock is
read.
-/

namespace ScopedScript.Main

/-- Fuel for one statement or one line; more than can be spent. -/
def fuel : Nat := Nat.pow 10 18

/-- The seconds since the Unix epoch. -/
def now : IO Float := do
  let nanoseconds := (← Std.Time.Timestamp.now).toNanosecondsSinceUnixEpoch.toInt
  return Float.ofInt (nanoseconds / 1000) / 1000000.0

/-- The session with the clock read anew and with nothing printed. -/
def refresh (s : Session) : IO Session := do
  let reading ← now
  let state := s.state
  let sink := { state.sink with text := "" }
  return { s with state := { state with sink := sink, host := .ofClock fun _ => reading } }

/-- Write a text out at once. -/
def put (stream : IO.FS.Stream) (text : String) : IO Unit := do
  stream.putStr text
  stream.flush

/-- Report what is wrong with a program; the answer is the code to end with. -/
def report (e : ProgramError) : IO Nat := do
  put (← IO.getStderr) (ProgramError.report [e])
  return e.exitCode.number

/-- Write out what a program printed; the answer is why it could not be written, if so. -/
def putOutput (s : Session) : IO (Option ProgramError) := do
  try
    put (← IO.getStdout) s.state.sink.text
    return none
  catch e => return some (.halt (.output (toString e)))

/-- Run the statements of a program. -/
def runStatements (s : Session) : List Stmt → IO Nat
  | [] => return ExitCode.success.number
  | statement :: rest => do
    let s ← refresh s
    match s.evaluate (Eval.runProgram fuel [statement]) with
    | .ok _ s =>
      match ← putOutput s with
      | none => runStatements s rest
      | some e => report e
    | .fault e s => report ((← putOutput s).getD e)
    | .exhausted => return ExitCode.failedProgram.number

/-- Run a source text. -/
def runText (source : String) : IO Nat := do
  let start : Session := .initial (.ofClock fun _ => 0.0) .accepting
  match start.prepare source with
  | .ok program s => runStatements s program
  | .fault e _ => report e
  | .exhausted => return ExitCode.failedProgram.number

/-- Write out the report of a command. -/
def deliver (r : Report) : IO Nat := do
  put (← IO.getStderr) r.messages
  put (← IO.getStdout) r.output
  return r.code

/-- A line of the input, `none` at its end; a line that is not text gives bytes that are not
either. -/
def readLine : IO (Option (List UInt8)) := do
  try
    let line ← (← IO.getStdin).getLine
    return (Text.lines line.toUTF8.toList).head?
  catch _ => return some [0xff]

/-- Run a computation of an interactive session and write out what it printed. -/
def onConsole {α : Type} (c : Console) (m : Run ConsoleError Console α) :
    IO (Except Nat (α × Console)) := do
  let session ← refresh c.session
  let written (c : Console) : IO Unit := do
    let _ ← putOutput c.session
    put (← IO.getStderr) c.messages.text
  match m { session, messages := .accepting } with
  | .ok a c =>
    written c
    return .ok (a, c)
  | .fault e c =>
    written c
    return .error (← deliver ((CommandError.console e).report "" ""))
  | .exhausted => return .error ExitCode.failedProgram.number

/-- Hold an interactive session. -/
partial def interact (c : Console) : IO Nat := do
  match ← onConsole c (Console.say Console.prompt) with
  | .error code => return code
  | .ok (_, c) =>
    match ← readLine with
    | none =>
      match ← onConsole c (Console.say "\n") with
      | .error code => return code
      | .ok _ => return ExitCode.success.number
    | some bytes =>
      match ← onConsole c (Console.step fuel bytes) with
      | .error code => return code
      | .ok (true, c) => interact c
      | .ok (false, _) => return ExitCode.success.number

/-- The number by which the system reports that a file to be read is a directory. -/
def isDirectoryCode : UInt32 := 21

/-- Why a file could not be read; an error of the system that says nothing else is taken for a
missing file. -/
def faultOf : IO.Error → FileFault
  | .inappropriateType _ code _ => if code = isDirectoryCode then .directory else .notDirectory
  | .invalidArgument .. => .nameTooLong
  | .permissionDenied .. => .forbidden
  | _ => .missing

/-- A file with the length that it reports, or why it cannot be read. -/
def readFile (file : String) : IO (Except FileFault StoredFile) := do
  try
    let bytes ← IO.FS.readBinFile file
    let metadata ← (← IO.FS.realPath file).metadata
    return .ok ⟨bytes, metadata.byteSize.toNat⟩
  catch e => return .error (faultOf e)

/-- Do something with the text of a file. -/
def withText (file : String) (f : String → IO Nat) : IO Nat := do
  match textOf file (← readFile file) with
  | .ok source => f source
  | .error e => deliver (e.report "" "")

/-- Carry out a command. -/
def execute : Command → IO Nat
  | .interact => do
    let start : Session := .initial (.ofClock fun _ => 0.0) .accepting
    interact (.start start .accepting)
  | .run file => withText file runText
  | .tokenize file json => withText file fun source => deliver (Command.tokenizeText json source)
  | .parse file => withText file fun source => deliver (Command.parseText source)

/-- What the command line has to look like. -/
def usage : String :=
  "usage: [--log] [run FILE | parse FILE | tokenize FILE [--json] | repl]\n"

/-- The code for a command line that asks for nothing. -/
def usageCode : UInt32 := 2

end ScopedScript.Main

/-- Carry out what the command line asks for. -/
def main (arguments : List String) : IO UInt32 := do
  match ScopedScript.Invocation.ofArguments? arguments with
  | none =>
    (← IO.getStderr).putStr ScopedScript.Main.usage
    return ScopedScript.Main.usageCode
  | some invocation =>
    if invocation.log then
      IO.FS.writeFile ScopedScript.logFile ""
    return UInt32.ofNat (← ScopedScript.Main.execute invocation.command)
