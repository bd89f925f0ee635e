/-!
# The lines of an input

An input is cut into lines before its bytes are read as text: whether a line is text at all is
asked for that line alone.
-/

namespace ScopedScript.Text

/-- The byte that ends a line. -/
def newline : UInt8 := 10

/-- The byte that is dropped in front of the end of a line. -/
def carriageReturn : UInt8 := 13

/-- The stretches of an input between its newlines; one more than there are newlines. -/
def pieces : List UInt8 → List (List UInt8)
  | [] => [[]]
  | b :: bs =>
    if b = newline then [] :: pieces bs
    else match pieces bs with
      | [] => [[b]]
      | piece :: rest => (b :: piece) :: rest

/-- A line without the one carriage return at its end, if it has one. -/
def dropReturn (line : List UInt8) : List UInt8 :=
  if line.getLast? = some carriageReturn then line.dropLast else line

/-- The lines that some stretches make. The last stretch was not ended by a newline: it is a line
only if there is something in it, and it keeps a carriage return. -/
def linesOfPieces : List (List UInt8) → List (List UInt8)
  | [] => []
  | [last] => if last.isEmpty then [] else [last]
  | piece :: rest => dropReturn piece :: linesOfPieces rest

/-- The lines of an input, each without its end. -/
def lines (bytes : List UInt8) : List (List UInt8) := linesOfPieces (pieces bytes)

example : lines [97, 13, 10, 98, 13] = [[97], [98, 13]] := by decide

end ScopedScript.Text
