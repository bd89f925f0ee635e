import ScopedScript.Syntax.Cursor

/-!
# A place in a list of tokens, by its number

A reader of syntax trees holds all tokens and how many of them it has taken. It looks at the token
with that number and at the one before it; there is no answer if there is no token with such a
number. That it never comes to this is due to the end of the text, which it does not go past.
-/

namespace ScopedScript

/-- A place in a list of tokens, and the first number that no reference has yet. -/
structure IndexedCursor where
  tokens : List Token
  current : Nat
  nextId : NodeId

namespace IndexedCursor

/-- The place before the first of some tokens. -/
def ofTokens (tokens : List Token) (base : NodeId) : IndexedCursor := ⟨tokens, 0, base⟩

variable (x : IndexedCursor)

/-- The token that comes next. -/
def peek? : Option Token := x.tokens[x.current]?

/-- The token before the place; at the very beginning, the first one. -/
def previous? : Option Token := x.tokens[x.current - 1]?

/-- Whether the end of the text comes next. -/
def atEnd? : Option Bool := x.peek?.map Token.isEof

/-- The place after the next token, unless that is the end of the text, and the token before it. -/
def advance? : Option (Token × IndexedCursor) := do
  let ended ← x.atEnd?
  let x' := if ended then x else { x with current := x.current + 1 }
  return (← x'.previous?, x')

/-- Whether a mark comes next. -/
def sees? (m : Mark) : Option Bool := do
  if ← x.atEnd? then
    return false
  return (← x.peek?).isMark m

/-- Move past a mark if it comes next; the answer is whether it did. -/
def accept? (m : Mark) : Option (Bool × IndexedCursor) := do
  if ← x.sees? m then
    return (true, (← x.advance?).2)
  return (false, x)

/-- Move past a mark and give it; if it does not come next, what does is to be blamed. -/
def expect? (m : Mark) : Option (Except Token Token × IndexedCursor) := do
  if ← x.sees? m then
    let (t, x') ← x.advance?
    return (.ok t, x')
  return (.error (← x.peek?), x)

/-- Move to the next boundary between statements: after a semicolon, or before a token that begins a
statement. -/
def toBoundary? (x : IndexedCursor) : Option IndexedCursor :=
  if _h : x.current < x.tokens.length then do
    if ← x.atEnd? then
      return x
    if (← x.previous?).isMark .semicolon || Cursor.startsStatement (← x.peek?) then
      return x
    toBoundary? { x with current := x.current + 1 }
  else none
  termination_by x.tokens.length - x.current

/-- Move to a boundary between statements after the next token. -/
def synchronize? : Option IndexedCursor := do
  let (_, x') ← x.advance?
  x'.toBoundary?

end IndexedCursor

end ScopedScript
