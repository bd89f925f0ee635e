import ScopedScript.Text.Quoted

/-!
# JSON texts

JSON values whose scalars are already written, and their compact and indented texts.
-/

namespace ScopedScript.Text

/-- A JSON value. -/
inductive Json where
  /-- A string, number or `null`, as it is written. -/
  | scalar (text : String)
  | array (elements : List Json)
  | object (fields : List (String × Json))

namespace Json

/-- A JSON string. -/
def string (text : String) : Json := .scalar (jsonString text)

mutual

/-- The text of a value without any space. -/
def compact : Json → String
  | scalar text => text
  | array elements => "[" ++ ",".intercalate (compactElements elements) ++ "]"
  | object fields => "\x7b" ++ ",".intercalate (compactFields fields) ++ "\x7d"

/-- The texts of the elements of an array. -/
def compactElements : List Json → List String
  | [] => []
  | element :: rest => compact element :: compactElements rest

/-- The texts of the fields of an object. -/
def compactFields : List (String × Json) → List String
  | [] => []
  | (key, value) :: rest => (jsonString key ++ ":" ++ compact value) :: compactFields rest

end

/-- A new line, indented by two spaces for every level. -/
def newLine (level : Nat) : String := "\n" ++ String.ofList (List.replicate (2 * level) ' ')

/-- Parts between brackets, each on a line of its own. -/
def bracketed (level : Nat) (opening closing : String) (parts : List String) : String :=
  if parts.isEmpty then opening ++ closing
  else
    opening ++ ",".intercalate (parts.map (newLine (level + 1) ++ ·)) ++
      newLine level ++ closing

mutual

/-- The text of a value that stands at a level of nesting, one element or field a line. -/
def indented (level : Nat) : Json → String
  | scalar text => text
  | array elements => bracketed level "[" "]" (indentedElements (level + 1) elements)
  | object fields => bracketed level "\x7b" "\x7d" (indentedFields (level + 1) fields)

/-- The texts of the elements of an array. -/
def indentedElements (level : Nat) : List Json → List String
  | [] => []
  | element :: rest => indented level element :: indentedElements level rest

/-- The texts of the fields of an object. -/
def indentedFields (level : Nat) : List (String × Json) → List String
  | [] => []
  | (key, value) :: rest =>
    (jsonString key ++ ": " ++ indented level value) :: indentedFields level rest

end

end Json

end ScopedScript.Text
