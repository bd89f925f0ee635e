import ScopedScript.Text.Json
import ScopedScript.Token.Basic

/-!
# Tokens in JSON

A token is an object of its kind, how it is written and its line. The kind is its name, or an
object from its name to the value of a literal.
-/

namespace ScopedScript

open Text (Json)

/-- A kind in JSON. -/
def Kind.toJson : Kind → Json
  | .string text => .object [("STRING", .string text)]
  | .number value => .object [("NUMBER", .scalar (Decimal.json value))]
  | kind => .string kind.name

/-- A token in JSON. -/
def Token.toJson (t : Token) : Json :=
  .object [("token_type", t.kind.toJson), ("lexeme", .string t.lexeme),
    ("line", .scalar (toString t.line))]

/-- A list of tokens in JSON. -/
def tokensToJson (tokens : List Token) : Json := .array (tokens.map Token.toJson)

end ScopedScript
