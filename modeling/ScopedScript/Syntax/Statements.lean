import ScopedScript.Syntax.Expressions

/-!
# Reading statements and programs

A program is read either up to its first fault, or as a whole: after a fault, reading goes on at
the next boundary between statements. A `for` is read as the `while` it abbreviates.
-/

namespace ScopedScript

/-- The statement that a `for` abbreviates. The body and the step run in a scope of their own, and
so does a loop with an initial statement. -/
def Stmt.forLoop (initial : Option Stmt) (condition step : Option Expr) (body : Stmt) : Stmt :=
  let body := match step with
    | some step => .block [body, .expression step]
    | none => body
  let loop := .loop (condition.getD (.literal (.bool true))) body
  match initial with
  | some initial => .block [initial, loop]
  | none => loop

namespace Reader

/-- Read parameters that come after `count` others. -/
def parameters : Nat → Nat → Reader (List Name)
  | 0, _ => Run.outOfFuel
  | fuel + 1, count => do
    if maxArity ≤ count then
      blame .tooManyParameters
    else
      let name ← identifier .noParameterName
      if ← accept .comma then
        return name :: (← parameters fuel (count + 1))
      return [name]

/-- Read an expression, unless a given mark comes next. -/
def expressionUnless (fuel : Nat) (m : Mark) : Reader (Option Expr) := do
  if ← sees m then return none
  return some (← expression fuel)

/-- Read the rest of the declaration of a variable, after its keyword. -/
def varDeclaration (fuel : Nat) : Reader Stmt := do
  let name ← identifier .noVariableName
  let initial ← if ← accept .equal then some <$> expression fuel else pure none
  let _ ← expect .semicolon .noVariableEnd
  return .var name initial

/-- Read an expression statement. -/
def expressionStatement (fuel : Nat) : Reader Stmt := do
  let e ← expression fuel
  let _ ← expect .semicolon .noExpressionEnd
  return .expression e

/-- Read the initial statement of a `for`, with the semicolon after it. -/
def forInitial (fuel : Nat) : Reader (Option Stmt) := do
  let t ← peek
  match t.kind with
  | .mark .semicolon =>
    advance
    return none
  | .keyword .varWord =>
    advance
    return some (← varDeclaration fuel)
  | _ => return some (← expressionStatement fuel)

/-- Read the superclass of a class, if it names one. -/
def superclass : Reader (Option Reference) := do
  if ← accept .less then
    let name ← identifier .noSuperclassName
    return some ⟨← freshId, name⟩
  return none

mutual

/-- Read a declaration or a statement. -/
def declaration : Nat → Reader Stmt
  | 0 => Run.outOfFuel
  | fuel + 1 => do
    let t ← peek
    match t.kind with
    | .keyword .classWord =>
      advance
      let name ← identifier .noClassName
      let superclass ← superclass
      let _ ← expect .leftBrace .noClassOpening
      let methods ← methods fuel
      return .classDef name superclass methods
    | .keyword .funWord =>
      advance
      return .function (← function fuel .function)
    | .keyword .varWord =>
      advance
      varDeclaration fuel
    | _ => statement fuel

/-- Read methods up to the brace that closes a class. -/
def methods : Nat → Reader (List FunctionDecl)
  | 0 => Run.outOfFuel
  | fuel + 1 => do
    if (← atEnd) || (← sees .rightBrace) then
      let _ ← expect .rightBrace .noClassClosing
      return []
    let method ← function fuel .method
    return method :: (← methods fuel)

/-- Read the declaration of a function or a method, from its name on. -/
def function : Nat → Routine → Reader FunctionDecl
  | 0, _ => Run.outOfFuel
  | fuel + 1, routine => do
    let name ← identifier (.noRoutineName routine)
    let _ ← expect .leftParen (.noParametersOpening routine)
    let names ← if ← sees .rightParen then pure [] else parameters fuel 0
    let _ ← expect .rightParen .noParametersClosing
    let _ ← expect .leftBrace (.noBodyOpening routine)
    let body ← block fuel
    return ⟨name, names, body⟩

/-- Read declarations up to the brace that closes a block. -/
def block : Nat → Reader (List Stmt)
  | 0 => Run.outOfFuel
  | fuel + 1 => do
    if (← atEnd) || (← sees .rightBrace) then
      let _ ← expect .rightBrace .noBlockClosing
      return []
    let first ← declaration fuel
    return first :: (← block fuel)

/-- Read a statement. -/
def statement : Nat → Reader Stmt
  | 0 => Run.outOfFuel
  | fuel + 1 => do
    let t ← peek
    match t.kind with
    | .keyword .forWord =>
      advance
      let _ ← expect .leftParen .noForOpening
      let initial ← forInitial fuel
      let condition ← expressionUnless fuel .semicolon
      let _ ← expect .semicolon .noLoopConditionEnd
      let step ← expressionUnless fuel .rightParen
      let _ ← expect .rightParen .noForClosing
      let body ← statement fuel
      return .forLoop initial condition step body
    | .keyword .ifWord =>
      advance
      let _ ← expect .leftParen .noIfOpening
      let condition ← expression fuel
      let _ ← expect .rightParen .noIfClosing
      let thenBranch ← statement fuel
      let next ← peek
      match next.kind with
      | .keyword .elseWord =>
        advance
        return .ifElse condition thenBranch (← statement fuel)
      | _ => return .ifThen condition thenBranch
    | .keyword .printWord =>
      advance
      let value ← expression fuel
      let _ ← expect .semicolon .noPrintEnd
      return .print value
    | .keyword .returnWord =>
      advance
      let value ← expressionUnless fuel .semicolon
      let _ ← expect .semicolon .noReturnEnd
      return .giveBack t.line value
    | .keyword .whileWord =>
      advance
      let _ ← expect .leftParen .noWhileOpening
      let condition ← expression fuel
      let _ ← expect .rightParen .noWhileClosing
      return .loop condition (← statement fuel)
    | .mark .leftBrace =>
      advance
      return .block (← block fuel)
    | _ => expressionStatement fuel

end

/-- Read declarations up to the end of the text. -/
def program : Nat → Reader (List Stmt)
  | 0 => Run.outOfFuel
  | fuel + 1 => do
    if ← atEnd then return []
    let first ← declaration fuel
    return first :: (← program fuel)

/-- Read declarations up to the end of the text, each with the fault that it stopped at, if any. -/
def recoveringProgram : Nat → Reader (List (Except SyntaxError Stmt))
  | 0 => Run.outOfFuel
  | fuel + 1 => do
    if ← atEnd then return []
    let first ← Run.attempt (declaration fuel)
    if let .error _ := first then Run.modify Cursor.synchronize
    return first :: (← recoveringProgram fuel)

end Reader

/-- Fuel that suffices for every reading of some tokens. -/
def readingFuel (tokens : List Token) : Nat := 32 * (tokens.length + 1)

/-- What is read from some tokens, and the first number that no reference has afterwards. -/
structure Parsed (α : Type) where
  result : α
  nextId : NodeId

/-- Read a program up to its first fault. References are numbered from `base` on. -/
def readProgram (tokens : List Token) (base : NodeId) : Parsed (Except SyntaxError (List Stmt)) :=
  let start := Cursor.ofTokens tokens base
  match Reader.program (readingFuel tokens) start with
  | .ok program c => ⟨.ok program, c.nextId⟩
  | .fault error c => ⟨.error error, c.nextId⟩
  | .exhausted => ⟨.error (start.blame .noExpression), base⟩

/-- Read a whole program, past its faults. References are numbered from `base` on. -/
def readPastFaults (tokens : List Token) (base : NodeId) :
    Parsed (List (Except SyntaxError Stmt)) :=
  match Reader.recoveringProgram (readingFuel tokens) (Cursor.ofTokens tokens base) with
  | .ok declarations c => ⟨declarations, c.nextId⟩
  | .fault error c => ⟨[.error error], c.nextId⟩
  | .exhausted => ⟨[], base⟩

/-- The statements among declarations that were read past their faults. -/
def statementsOf (declarations : List (Except SyntaxError Stmt)) : List Stmt :=
  declarations.filterMap fun
    | .ok s => some s
    | .error _ => none

/-- The faults among declarations that were read past their faults. -/
def errorsOf (declarations : List (Except SyntaxError Stmt)) : List SyntaxError :=
  declarations.filterMap fun
    | .ok _ => none
    | .error e => some e

end ScopedScript
