/-!
# The command line

What the arguments of the command line ask for. Options may stand before and after the name of a
file; after `--`, no argument is an option.
-/

namespace ScopedScript

/-- What can be asked for. -/
inductive Command where
  /-- List the tokens of a file, as text or in JSON. -/
  | tokenize (file : String) (json : Bool)
  /-- Print the syntax tree of a file. -/
  | parse (file : String)
  /-- Run a file. -/
  | run (file : String)
  /-- Hold an interactive session. -/
  | interact
  deriving DecidableEq, Repr

/-- What the arguments ask for. -/
structure Invocation where
  command : Command
  /-- Whether a log is to be left behind. -/
  log : Bool
  deriving DecidableEq, Repr

/-- The file that a log is left behind in. -/
def logFile : String := "glox.log"

/-- Arguments, with the options taken out. -/
structure Arguments where
  words : List String
  json : Bool
  log : Bool

namespace Arguments

/-- Sort out the arguments, unless one is an option that is not known or is given twice. -/
def ofList? : List String → Option Arguments
  | [] => some ⟨[], false, false⟩
  | "--" :: rest => some ⟨rest, false, false⟩
  | "--log" :: rest =>
    (ofList? rest).bind fun a => if a.log then none else some { a with log := true }
  | "--json" :: rest =>
    (ofList? rest).bind fun a => if a.json then none else some { a with json := true }
  | word :: rest =>
    if word.startsWith "-" && word != "-" then none
    else (ofList? rest).map fun a => { a with words := word :: a.words }

/-- What the arguments ask for, if that is anything. No file has an empty name. -/
def command? (a : Arguments) : Option Command :=
  match a.words, a.json with
  | [], false => some .interact
  | ["repl"], false => some .interact
  | [_, ""], _ => none
  | ["tokenize", file], json => some (.tokenize file json)
  | ["parse", file], false => some (.parse file)
  | ["run", file], false => some (.run file)
  | _, _ => none

end Arguments

/-- What the arguments of the command line ask for, if that is anything. -/
def Invocation.ofArguments? (arguments : List String) : Option Invocation :=
  (Arguments.ofList? arguments).bind fun a => a.command?.map fun command => ⟨command, a.log⟩

end ScopedScript
