import ScopedScript.Eval.Fault
import ScopedScript.Scope.Fault
import ScopedScript.Syntax.Fault
import ScopedScript.Token.Lexer

/-!
# What can be wrong with a program

The faults of all passes, and the messages that report them. A fault is static if it is found
before anything is run.
-/

namespace ScopedScript

/-- Why a program was not run, or not to its end. -/
inductive ProgramError where
  | lex (error : LexError)
  | parse (error : SyntaxError)
  | scope (error : ScopeError)
  | halt (reason : Halt)

/-- Where a token stands, in a message. -/
def Token.place (t : Token) : String :=
  if t.isEof then " at end" else " at '" ++ t.lexeme ++ "'"

namespace ProgramError

/-- Whether a fault is found before anything is run. -/
def isStatic : ProgramError → Bool
  | lex _ | parse _ | scope _ => true
  | halt _ => false

/-- The line of a fault, if it has one. -/
def line? : ProgramError → Option Nat
  | lex error => some error.line
  | parse error => some error.token.line
  | scope error => some error.blamed.line
  | halt (.runtime _ line) => some line
  | halt (.output _) => none

/-- The message for a static fault. -/
def staticMessage (line : Nat) (place wording : String) : String :=
  "[line " ++ toString line ++ "] Error" ++ place ++ ": " ++ wording

/-- The message that reports a fault. -/
def message : ProgramError → String
  | lex error => staticMessage error.line "" error.fault.message
  | parse error => staticMessage error.token.line error.token.place error.fault.message
  | scope error =>
    staticMessage error.blamed.line (" at '" ++ error.blamed.text ++ "'") error.fault.message
  | halt (.runtime fault line) => fault.message ++ "\n[line " ++ toString line ++ "]"
  | halt (.output reason) => reason

end ProgramError

end ScopedScript
