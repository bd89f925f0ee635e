import ScopedScript.Outcome
import ScopedScript.Syntax.Basic
import ScopedScript.Syntax.Fault

/-!
# A place in a list of tokens

A reader of syntax trees holds the tokens it has not taken yet and the next number for a reference.
The end of the text is kept apart from the tokens before it, so a reader never moves past it: with
no token left, the end of the text is what comes next.
-/

namespace ScopedScript

/-- A place in a list of tokens, and the first number that no reference has yet. -/
structure Cursor where
  rest : List Token
  eof : Token
  nextId : NodeId

/-- A computation that reads tokens. -/
abbrev Reader (α : Type) := Run SyntaxError Cursor α

namespace Cursor

/-- The place before the first of some tokens. The first end of the text among them counts; if
there is none, the text ends after all of them. -/
def ofTokens (tokens : List Token) (base : NodeId) : Cursor where
  rest := tokens.takeWhile fun t => !t.isEof
  eof := (tokens.find? Token.isEof).getD ⟨.eof, "", 0⟩
  nextId := base

/-- The token that comes next. -/
def peek (c : Cursor) : Token := c.rest.headD c.eof

/-- Whether the end of the text comes next. -/
def atEnd (c : Cursor) : Bool := c.rest.isEmpty

/-- The place after the next token; the end of the text is not passed. -/
def advance (c : Cursor) : Cursor := { c with rest := c.rest.tail }

/-- A fault for which the next token is blamed. -/
def blame (c : Cursor) (fault : SyntaxFault) : SyntaxError := ⟨fault, c.peek, c.rest.length⟩

/-- Whether a token begins a declaration or a statement with a keyword of its own. -/
def startsStatement (t : Token) : Bool :=
  match t.kind with
  | .keyword .classWord | .keyword .funWord | .keyword .varWord | .keyword .forWord
  | .keyword .ifWord | .keyword .whileWord | .keyword .printWord | .keyword .returnWord => true
  | _ => false

/-- The tokens from the next boundary between statements on: after a semicolon, or before a token
that begins a statement. -/
def fromBoundary (previous : Token) : List Token → List Token
  | [] => []
  | t :: rest =>
    if previous.isMark .semicolon || startsStatement t then t :: rest else fromBoundary t rest

/-- The place to go on from after a fault: a boundary between statements after the next token. -/
def synchronize (c : Cursor) : Cursor :=
  match c.rest with
  | [] => c
  | t :: rest => { c with rest := fromBoundary t rest }

end Cursor

namespace Reader

/-- The token that comes next. -/
def peek : Reader Token := Run.gets Cursor.peek

/-- Whether the end of the text comes next. -/
def atEnd : Reader Bool := Run.gets Cursor.atEnd

/-- Move past the next token. -/
def advance : Reader Unit := Run.modify Cursor.advance

/-- Stop, blaming the next token. -/
def blame {α : Type} (fault : SyntaxFault) : Reader α := fun c => .fault (c.blame fault) c

/-- A number that no reference has yet. -/
def freshId : Reader NodeId := Run.update fun c => (c.nextId, { c with nextId := c.nextId + 1 })

/-- Whether a mark comes next. -/
def sees (m : Mark) : Reader Bool := Run.gets fun c => !c.atEnd && c.peek.isMark m

/-- Move past a mark if it comes next; the answer is whether it did. -/
def accept (m : Mark) : Reader Bool := do
  if ← sees m then
    advance
    return true
  return false

/-- Move past a mark, which has to come next. -/
def expect (m : Mark) (fault : SyntaxFault) : Reader Token := do
  if ← sees m then
    let t ← peek
    advance
    return t
  blame fault

/-- Move past an identifier, which has to come next. -/
def identifier (fault : SyntaxFault) : Reader Name := do
  let t ← peek
  match t.kind with
  | .identifier =>
    advance
    return ⟨t.lexeme, t.line⟩
  | _ => blame fault

end Reader

end ScopedScript
