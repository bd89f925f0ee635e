import ScopedScript.Syntax.Basic

/-!
# Equality of syntax trees

Two trees are equal if they have the same shape, the same names and constants on the same lines,
and the same numbers of references. Constants that are numbers are compared as numbers.
-/

namespace ScopedScript

/-- Whether two constants are equal. -/
def Literal.equal : Literal → Literal → Bool
  | .number a, .number b => a == b
  | .string a, .string b => a == b
  | .bool a, .bool b => a == b
  | .nil, .nil => true
  | _, _ => false

mutual

/-- Whether two expressions are equal. -/
def Expr.equal : Expr → Expr → Bool
  | .literal a, .literal b => a.equal b
  | .unary op line a, .unary op' line' b => op == op' && line == line' && a.equal b
  | .binary op line a b, .binary op' line' a' b' =>
    op == op' && line == line' && a.equal a' && b.equal b'
  | .logical op line a b, .logical op' line' a' b' =>
    op == op' && line == line' && a.equal a' && b.equal b'
  | .grouping a, .grouping b => a.equal b
  | .name r, .name r' => r == r'
  | .assign r a, .assign r' b => r == r' && a.equal b
  | .call f line args, .call f' line' args' =>
    f.equal f' && line == line' && Expr.equalAll args args'
  | .get a p, .get b p' => a.equal b && p == p'
  | .set a p v, .set b p' v' => a.equal b && p == p' && v.equal v'
  | .receiver id line, .receiver id' line' => id == id' && line == line'
  | .inherited id line m, .inherited id' line' m' => id == id' && line == line' && m == m'
  | _, _ => false

/-- Whether two lists of expressions are equal. -/
def Expr.equalAll : List Expr → List Expr → Bool
  | [], [] => true
  | a :: as, b :: bs => a.equal b && Expr.equalAll as bs
  | _, _ => false

end

/-- Whether two expressions that may be left out are equal. -/
def Expr.equalOption : Option Expr → Option Expr → Bool
  | none, none => true
  | some a, some b => a.equal b
  | _, _ => false

mutual

/-- Whether two statements are equal. -/
def Stmt.equal : Stmt → Stmt → Bool
  | .expression a, .expression b => a.equal b
  | .print a, .print b => a.equal b
  | .var x a, .var y b => x == y && Expr.equalOption a b
  | .block a, .block b => Stmt.equalAll a b
  | .ifThen c s, .ifThen c' s' => c.equal c' && s.equal s'
  | .ifElse c s t, .ifElse c' s' t' => c.equal c' && s.equal s' && t.equal t'
  | .loop c s, .loop c' s' => c.equal c' && s.equal s'
  | .function d, .function d' => FunctionDecl.equal d d'
  | .giveBack line a, .giveBack line' b => line == line' && Expr.equalOption a b
  | .classDef x s ms, .classDef y t ns => x == y && s == t && FunctionDecl.equalAll ms ns
  | _, _ => false

/-- Whether two lists of statements are equal. -/
def Stmt.equalAll : List Stmt → List Stmt → Bool
  | [], [] => true
  | a :: as, b :: bs => a.equal b && Stmt.equalAll as bs
  | _, _ => false

/-- Whether two declarations are equal. -/
def FunctionDecl.equal : FunctionDecl → FunctionDecl → Bool
  | ⟨x, ps, body⟩, ⟨y, qs, body'⟩ => x == y && ps == qs && Stmt.equalAll body body'

/-- Whether two lists of declarations are equal. -/
def FunctionDecl.equalAll : List FunctionDecl → List FunctionDecl → Bool
  | [], [] => true
  | d :: ds, d' :: ds' => FunctionDecl.equal d d' && FunctionDecl.equalAll ds ds'
  | _, _ => false

end

end ScopedScript
