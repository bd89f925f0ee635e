import ScopedScript.Decimal.Layout
import ScopedScript.Syntax.Basic

/-!
# Syntax trees, printed

A tree is printed with every operation in parentheses, the operator first. The statements of a
program stand on lines of their own.
-/

namespace ScopedScript

/-- Parts between parentheses, separated by spaces. -/
def parenthesized (parts : List String) : String := "(" ++ " ".intercalate parts ++ ")"

/-- A constant, printed. A string is printed as it is. -/
def Literal.render : Literal → String
  | .number value => Decimal.exact value
  | .string text => text
  | .bool true => "true"
  | .bool false => "false"
  | .nil => "nil"

mutual

/-- An expression, printed. -/
def Expr.render : Expr → String
  | .literal value => value.render
  | .unary op _ operand => parenthesized [op.spelling, operand.render]
  | .binary op _ left right => parenthesized [op.spelling, left.render, right.render]
  | .logical op _ left right => parenthesized [op.spelling, left.render, right.render]
  | .grouping inner => parenthesized ["group", inner.render]
  | .name ref => ref.name.text
  | .assign ref value => parenthesized ["=", ref.name.text, value.render]
  | .call callee _ arguments =>
    parenthesized ("call" :: callee.render :: Expr.renderAll arguments)
  | .get object property => parenthesized [".", object.render, property.text]
  | .set object property value =>
    parenthesized ["=.", object.render, property.text, value.render]
  | .receiver _ _ => receiverWord
  | .inherited _ _ method => parenthesized [superclassWord, method.text]

/-- Expressions, printed. -/
def Expr.renderAll : List Expr → List String
  | [] => []
  | e :: es => e.render :: Expr.renderAll es

end

/-- What is printed of an expression that may be left out. -/
def Expr.renderOption (e : Option Expr) : List String := e.toList.map Expr.render

mutual

/-- A statement, printed. -/
def Stmt.render : Stmt → String
  | .expression e => parenthesized [";", e.render]
  | .print e => parenthesized ["print", e.render]
  | .var name initial => parenthesized ("var" :: name.text :: Expr.renderOption initial)
  | .block body => parenthesized ["block", " ".intercalate (Stmt.renderAll body)]
  | .ifThen condition thenBranch => parenthesized ["if", condition.render, thenBranch.render]
  | .ifElse condition thenBranch elseBranch =>
    parenthesized ["if", condition.render, thenBranch.render, elseBranch.render]
  | .loop condition body => parenthesized ["while", condition.render, body.render]
  | .function declaration => FunctionDecl.render "fun" declaration
  | .giveBack _ value => parenthesized ("return" :: Expr.renderOption value)
  | .classDef name superclass methods =>
    parenthesized
      ("class" :: name.text ::
        (match superclass with
          | some ref => ["<", ref.name.text]
          | none => []) ++ FunctionDecl.renderAll methods)

/-- Statements, printed. -/
def Stmt.renderAll : List Stmt → List String
  | [] => []
  | s :: ss => s.render :: Stmt.renderAll ss

/-- A declaration, printed after a word for what is declared. -/
def FunctionDecl.render (word : String) : FunctionDecl → String
  | ⟨name, parameters, body⟩ =>
    parenthesized
      [word, name.text, parenthesized (parameters.map Name.text),
        " ".intercalate (Stmt.renderAll body)]

/-- Methods, printed. -/
def FunctionDecl.renderAll : List FunctionDecl → List String
  | [] => []
  | d :: ds => FunctionDecl.render "method" d :: FunctionDecl.renderAll ds

end

/-- A program, printed. -/
def renderProgram (program : List Stmt) : String := "\n".intercalate (Stmt.renderAll program)

end ScopedScript
