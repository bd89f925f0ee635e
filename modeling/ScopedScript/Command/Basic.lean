import ScopedScript.Command.Arguments
import ScopedScript.Command.Directory
import ScopedScript.Session.Interactive
import ScopedScript.Syntax.Printer
import ScopedScript.Text.Decode
import ScopedScript.Token.Json

/-!
# Commands

What a command writes and the code it ends with, given the files there are and what is typed in.
A program that is malformed, one that fails, a file that cannot be read and a file that is not text
have codes of their own.
-/

namespace ScopedScript

/-- What a command finds around it. -/
structure Surroundings where
  file : String → Except FileFault StoredFile
  input : ByteArray
  host : Host
  output : Sink

/-- What a command leaves behind. -/
structure Report where
  code : Nat
  output : String
  messages : String
  deriving DecidableEq, Repr

/-- The codes that commands end with. -/
inductive ExitCode where
  | success
  | unreadableText
  | malformedProgram
  | failedProgram
  | failedInput
  deriving DecidableEq, Repr

/-- The number of a code. -/
def ExitCode.number : ExitCode → Nat
  | success => 0
  | unreadableText => 1
  | malformedProgram => 65
  | failedProgram => 70
  | failedInput => 74

/-- The code for a program that was not run to its end. -/
def ProgramError.exitCode (e : ProgramError) : ExitCode :=
  if e.isStatic then .malformedProgram else .failedProgram

/-- Messages, each on a line of its own. -/
def ProgramError.report (errors : List ProgramError) : String :=
  String.join (errors.map fun e => e.message ++ "\n")

/-- Why a command did not get as far as a program. -/
inductive CommandError where
  | unreadable (file : String) (fault : FileFault)
  | notText (file : String) (fault : Text.DecodeFault)
  | console (error : ConsoleError)

namespace CommandError

/-- The message that reports why a command failed. -/
def message : CommandError → String
  | unreadable file fault => fault.message (Text.quotedName file)
  | notText file fault =>
    "File " ++ Text.quotedName file ++ " is not valid UTF-8: " ++ fault.message
  | console error => error.message

/-- The code for a command that failed. -/
def exitCode : CommandError → ExitCode
  | unreadable _ _ => .failedInput
  | notText _ _ => .unreadableText
  | console _ => .failedInput

/-- What a command that failed leaves behind, after what it wrote before. -/
def report (e : CommandError) (output messages : String) : Report :=
  ⟨e.exitCode.number, output, messages ++ "Error: " ++ e.message ++ "\n"⟩

end CommandError

/-- The text of a file, given the file or why it cannot be read. -/
def textOf (file : String) : Except FileFault StoredFile → Except CommandError String
  | .error fault => .error (.unreadable file fault)
  | .ok stored => (Text.decode stored.contents).mapError (.notText file)

namespace Command

/-- List the tokens of a source text. -/
def tokenizeText (json : Bool) (source : String) : Report :=
  let scanned := scan source
  let output :=
    if json then (tokensToJson scanned.tokens).indented 0 ++ "\n"
    else String.join (scanned.tokens.map fun t => t.render ++ "\n")
  let code := if scanned.errors.isEmpty then ExitCode.success else .malformedProgram
  ⟨code.number, output, ProgramError.report (scanned.errors.map .lex)⟩

/-- Print the syntax tree of a source text. What is not a token is passed over. -/
def parseText (source : String) : Report :=
  match (readProgram (scan source).tokens 0).result with
  | .ok program => ⟨ExitCode.success.number, renderProgram program ++ "\n", ""⟩
  | .error error =>
    ⟨ExitCode.malformedProgram.number, "", ProgramError.report [.parse error]⟩

/-- Run a source text; no answer if the fuel does not last. -/
def runText? (fuel : Nat) (w : Surroundings) (source : String) : Option Report :=
  match (Session.initial w.host w.output).run fuel source with
  | .ok _ s => some ⟨ExitCode.success.number, s.state.sink.text, ""⟩
  | .fault error s =>
    some ⟨error.exitCode.number, s.state.sink.text, ProgramError.report [error]⟩
  | .exhausted => none

/-- Hold an interactive session; no answer if the fuel does not last. -/
def interact? (fuel : Nat) (w : Surroundings) : Option Report :=
  match Console.run fuel w.input (.start (.initial w.host w.output) .accepting) with
  | .ok _ c => some ⟨ExitCode.success.number, c.session.state.sink.text, c.messages.text⟩
  | .fault error c =>
    some ((CommandError.console error).report c.session.state.sink.text c.messages.text)
  | .exhausted => none

/-- Do something with the text of a file. -/
def withText (w : Surroundings) (file : String) (f : String → Option Report) : Option Report :=
  match textOf file (w.file file) with
  | .ok source => f source
  | .error error => some (error.report "" "")

/-- Carry out a command; no answer if the fuel does not last. -/
def execute? (fuel : Nat) (w : Surroundings) : Command → Option Report
  | tokenize file json => withText w file fun source => some (tokenizeText json source)
  | parse file => withText w file fun source => some (parseText source)
  | run file => withText w file (runText? fuel w)
  | interact => interact? fuel w

end Command

end ScopedScript
