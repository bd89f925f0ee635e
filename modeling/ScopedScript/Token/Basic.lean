import ScopedScript.Decimal.Layout

/-!
# Tokens

The words of a program: marks (operators and punctuation), keywords, identifiers, strings, numbers
and the end of the text. Marks and keywords have one spelling each; strings and numbers carry the
value that they denote.
-/

namespace ScopedScript

/-- An operator or a punctuation mark. -/
inductive Mark where
  | leftParen | rightParen | leftBrace | rightBrace
  | comma | dot | minus | plus | semicolon | slash | star
  | bang | bangEqual | equal | equalEqual
  | greater | greaterEqual | less | lessEqual
  deriving DecidableEq, Repr, Inhabited

namespace Mark

/-- The name of a mark, as token lists show it. -/
def name : Mark → String
  | leftParen => "LEFT_PAREN"
  | rightParen => "RIGHT_PAREN"
  | leftBrace => "LEFT_BRACE"
  | rightBrace => "RIGHT_BRACE"
  | comma => "COMMA"
  | dot => "DOT"
  | minus => "MINUS"
  | plus => "PLUS"
  | semicolon => "SEMICOLON"
  | slash => "SLASH"
  | star => "STAR"
  | bang => "BANG"
  | bangEqual => "BANG_EQUAL"
  | equal => "EQUAL"
  | equalEqual => "EQUAL_EQUAL"
  | greater => "GREATER"
  | greaterEqual => "GREATER_EQUAL"
  | less => "LESS"
  | lessEqual => "LESS_EQUAL"

/-- How a mark is written. -/
def spelling : Mark → List Char
  | leftParen => ['(']
  | rightParen => [')']
  | leftBrace => ['\x7b']
  | rightBrace => ['\x7d']
  | comma => [',']
  | dot => ['.']
  | minus => ['-']
  | plus => ['+']
  | semicolon => [';']
  | slash => ['/']
  | star => ['*']
  | bang => ['!']
  | bangEqual => ['!', '=']
  | equal => ['=']
  | equalEqual => ['=', '=']
  | greater => ['>']
  | greaterEqual => ['>', '=']
  | less => ['<']
  | lessEqual => ['<', '=']

/-- The mark that is written with one character. -/
def ofChar? : Char → Option Mark
  | '(' => some leftParen
  | ')' => some rightParen
  | '\x7b' => some leftBrace
  | '\x7d' => some rightBrace
  | ',' => some comma
  | '.' => some dot
  | '-' => some minus
  | '+' => some plus
  | ';' => some semicolon
  | '/' => some slash
  | '*' => some star
  | '!' => some bang
  | '=' => some equal
  | '>' => some greater
  | '<' => some less
  | _ => none

/-- The mark that is written with an equals sign after another character. -/
def withEqual? : Char → Option Mark
  | '!' => some bangEqual
  | '=' => some equalEqual
  | '>' => some greaterEqual
  | '<' => some lessEqual
  | _ => none

theorem spelling_of_ofChar? {c : Char} {m : Mark} (h : ofChar? c = some m) :
    m.spelling = [c] := by
  unfold ofChar? at h
  split at h <;> simp at h <;> subst h <;> rfl

theorem spelling_of_withEqual? {c : Char} {m : Mark} (h : withEqual? c = some m) :
    m.spelling = [c, '='] := by
  unfold withEqual? at h
  split at h <;> simp at h <;> subst h <;> rfl

end Mark

/-- A reserved word. -/
inductive Keyword where
  | andWord | classWord | elseWord | falseWord | funWord | forWord | ifWord | nilWord
  | orWord | printWord | returnWord | superWord | thisWord | trueWord | varWord | whileWord
  deriving DecidableEq, Repr, Inhabited

namespace Keyword

/-- How a keyword is written. -/
def spelling : Keyword → String
  | andWord => "and"
  | classWord => "class"
  | elseWord => "else"
  | falseWord => "false"
  | funWord => "fun"
  | forWord => "for"
  | ifWord => "if"
  | nilWord => "nil"
  | orWord => "or"
  | printWord => "print"
  | returnWord => "return"
  | superWord => "super"
  | thisWord => "this"
  | trueWord => "true"
  | varWord => "var"
  | whileWord => "while"

/-- The name of a keyword, as token lists show it. -/
def name : Keyword → String
  | andWord => "AND"
  | classWord => "CLASS"
  | elseWord => "ELSE"
  | falseWord => "FALSE"
  | funWord => "FUN"
  | forWord => "FOR"
  | ifWord => "IF"
  | nilWord => "NIL"
  | orWord => "OR"
  | printWord => "PRINT"
  | returnWord => "RETURN"
  | superWord => "SUPER"
  | thisWord => "THIS"
  | trueWord => "TRUE"
  | varWord => "VAR"
  | whileWord => "WHILE"

/-- All keywords. -/
def all : List Keyword :=
  [andWord, classWord, elseWord, falseWord, funWord, forWord, ifWord, nilWord,
    orWord, printWord, returnWord, superWord, thisWord, trueWord, varWord, whileWord]

theorem mem_all (k : Keyword) : k ∈ all := by cases k <;> decide

/-- The keyword that a word is, if it is one. -/
def ofWord? (word : String) : Option Keyword := all.find? fun k => k.spelling == word

end Keyword

/-- What sort of word a token is, with the value of a literal. -/
inductive Kind where
  | mark (m : Mark)
  | keyword (k : Keyword)
  | identifier
  | string (text : String)
  | number (value : Float)
  | eof
  deriving Inhabited

namespace Kind

/-- Whether two kinds are the same but for the value of a literal. -/
def same : Kind → Kind → Bool
  | mark a, mark b => a == b
  | keyword a, keyword b => a == b
  | identifier, identifier => true
  | string _, string _ => true
  | number _, number _ => true
  | eof, eof => true
  | _, _ => false

/-- The name of a kind, as token lists show it. -/
def name : Kind → String
  | mark m => m.name
  | keyword k => k.name
  | identifier => "IDENTIFIER"
  | string _ => "STRING"
  | number _ => "NUMBER"
  | eof => "EOF"

/-- The value of a literal, as token lists show it. -/
def literal : Kind → String
  | string text => text
  | number value => Decimal.literal value
  | _ => "null"

end Kind

/-- A word of a program, as it was written, and the line it ends on. -/
structure Token where
  kind : Kind
  lexeme : String
  line : Nat
  deriving Inhabited

namespace Token

/-- Whether two tokens are the same but for the value of a literal. -/
def same (a b : Token) : Bool :=
  a.kind.same b.kind && a.lexeme == b.lexeme && a.line == b.line

/-- Whether a token is a given mark. -/
def isMark (t : Token) (m : Mark) : Bool := t.kind.same (.mark m)

/-- Whether a token is the end of the text. -/
def isEof (t : Token) : Bool := t.kind.same .eof

/-- A token as token lists show it: its kind, how it is written and its value. -/
def render (t : Token) : String := t.kind.name ++ " " ++ t.lexeme ++ " " ++ t.kind.literal

end Token

end ScopedScript
