import ScopedScript.Token.Basic

/-!
# Faults of syntax

What can be wrong with a list of tokens, and the token that is blamed for it.
-/

namespace ScopedScript

/-- The most parameters of a function, and the most arguments of a call. -/
def maxArity : Nat := 255

/-- Whether a declaration is that of a function or of a method. -/
inductive Routine where
  | function | method
  deriving DecidableEq, Repr

/-- The word for what is declared. -/
def Routine.word : Routine → String
  | function => "function"
  | method => "method"

/-- What is wrong with a list of tokens. -/
inductive SyntaxFault where
  | noClassName | noSuperclassName | noClassOpening | noClassClosing
  | noRoutineName (routine : Routine)
  | noParametersOpening (routine : Routine)
  | noBodyOpening (routine : Routine)
  | tooManyParameters | noParameterName | noParametersClosing
  | noVariableName | noVariableEnd
  | noForOpening | noLoopConditionEnd | noForClosing
  | noIfOpening | noIfClosing
  | noWhileOpening | noWhileClosing
  | noPrintEnd | noReturnEnd | noExpressionEnd | noBlockClosing
  | invalidTarget | noPropertyName
  | tooManyArguments | noArgumentsClosing
  | noSuperDot | noSuperMethod
  | noGroupingClosing | noExpression
  deriving DecidableEq, Repr

/-- The wording of a fault. -/
def SyntaxFault.message : SyntaxFault → String
  | noClassName => "Expect class name."
  | noSuperclassName => "Expect superclass name."
  | noClassOpening => "Expect '\x7b' before class body."
  | noClassClosing => "Expect '\x7d' after class body."
  | noRoutineName routine => "Expect " ++ routine.word ++ " name."
  | noParametersOpening routine => "Expect '(' after " ++ routine.word ++ " name."
  | noBodyOpening routine => "Expect '\x7b' before " ++ routine.word ++ " body."
  | tooManyParameters => "Can't have more than " ++ toString maxArity ++ " parameters."
  | noParameterName => "Expect parameter name."
  | noParametersClosing => "Expect ')' after parameters."
  | noVariableName => "Expect variable name."
  | noVariableEnd => "Expect ';' after variable declaration."
  | noForOpening => "Expect '(' after 'for'."
  | noLoopConditionEnd => "Expect ';' after loop condition."
  | noForClosing => "Expect ')' after for clauses."
  | noIfOpening => "Expect '(' after 'if'."
  | noIfClosing => "Expect ')' after if condition."
  | noWhileOpening => "Expect '(' after 'while'."
  | noWhileClosing => "Expect ')' after condition."
  | noPrintEnd => "Expect ';' after value."
  | noReturnEnd => "Expect ';' after return value."
  | noExpressionEnd => "Expect ';' after expression."
  | noBlockClosing => "Expect '\x7d' after block."
  | invalidTarget => "Invalid assignment target."
  | noPropertyName => "Expect property name after '.'."
  | tooManyArguments => "Can't have more than " ++ toString maxArity ++ " arguments."
  | noArgumentsClosing => "Expect ')' after arguments."
  | noSuperDot => "Expect '.' after 'super'."
  | noSuperMethod => "Expect superclass method name."
  | noGroupingClosing => "Expect ')' after expression."
  | noExpression => "Expect expression."

/-- A fault, the token that is blamed for it, and how many tokens remain from that token on, the
end of the text not counted. -/
structure SyntaxError where
  fault : SyntaxFault
  token : Token
  remaining : Nat

end ScopedScript
