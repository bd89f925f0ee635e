import ScopedScript.Syntax.Statements

/-!
# Trees written out as tokens

The tokens that a syntax tree is written as, and the numbers that its references have when the
first of them is `i` and the first number after them is `j`. There is one sort of phrase for each
way of reading, so a tree that is written in one way can be read in one way only. In particular, an
`else` belongs to the nearest `if` that can have it: a statement that ends in an `if` without one is
marked as dangling, and never stands before an `else`.
-/

namespace ScopedScript

/-- The name that an identifier stands for. -/
def Token.toName (t : Token) : Name := ⟨t.lexeme, t.line⟩

/-- The constant that a kind of token stands for. -/
def Literal.ofKind? : Kind → Option Literal
  | .keyword .falseWord => some (.bool false)
  | .keyword .trueWord => some (.bool true)
  | .keyword .nilWord => some .nil
  | .number value => some (.number value)
  | .string text => some (.string text)
  | _ => none

/-- The phrases that expressions are read from. -/
inductive ExprPhrase where
  | expression (e : Expr)
  | level (l : Level) (e : Expr)
  | operand (l : Level) (e : Expr)
  /-- What follows the operand `left` and makes `e` of it. -/
  | operations (l : Level) (left e : Expr)
  | unary (e : Expr)
  /-- What follows `callee` and makes `e` of it. -/
  | calls (callee e : Expr)
  | arguments (es : List Expr)
  | primary (e : Expr)

/-- Expressions written out as tokens. -/
inductive WrittenExpr : ExprPhrase → NodeId → List Token → NodeId → Prop where
  | plain {e i w j} : WrittenExpr (.level .or e) i w j → WrittenExpr (.expression e) i w j
  | assign {ref e i w k t v j} :
      WrittenExpr (.level .or (.name ref)) i w k → t.kind = .mark .equal →
      WrittenExpr (.expression e) k v j →
      WrittenExpr (.expression (.assign ref e)) i (w ++ t :: v) j
  | set {object name e i w k t v j} :
      WrittenExpr (.level .or (.get object name)) i w k → t.kind = .mark .equal →
      WrittenExpr (.expression e) k v j →
      WrittenExpr (.expression (.set object name e)) i (w ++ t :: v) j
  | level {l left e i w k v j} :
      WrittenExpr (.operand l left) i w k → WrittenExpr (.operations l left e) k v j →
      WrittenExpr (.level l e) i (w ++ v) j
  | tighter {l l' e i w j} :
      l.tighter? = some l' → WrittenExpr (.level l' e) i w j → WrittenExpr (.operand l e) i w j
  | tightest {l e i w j} :
      l.tighter? = none → WrittenExpr (.unary e) i w j → WrittenExpr (.operand l e) i w j
  | noOperation {l left i} : WrittenExpr (.operations l left left) i [] i
  | operation {l t op left right e i w k v j} :
      l.operator? t.kind = some op → WrittenExpr (.operand l right) i w k →
      WrittenExpr (.operations l (op.apply t.line left right) e) k v j →
      WrittenExpr (.operations l left e) i (t :: w ++ v) j
  | prefixed {t op e i w j} :
      UnaryOp.ofKind? t.kind = some op → WrittenExpr (.unary e) i w j →
      WrittenExpr (.unary (.unary op t.line e)) i (t :: w) j
  | called {callee e i w k v j} :
      WrittenExpr (.primary callee) i w k → WrittenExpr (.calls callee e) k v j →
      WrittenExpr (.unary e) i (w ++ v) j
  | noCall {callee i} : WrittenExpr (.calls callee callee) i [] i
  | callWithout {t u callee e i v j} :
      t.kind = .mark .leftParen → u.kind = .mark .rightParen →
      WrittenExpr (.calls (.call callee u.line []) e) i v j →
      WrittenExpr (.calls callee e) i (t :: u :: v) j
  | callWith {t u callee es e i w k v j} :
      t.kind = .mark .leftParen → es.length ≤ maxArity → WrittenExpr (.arguments es) i w k →
      u.kind = .mark .rightParen → WrittenExpr (.calls (.call callee u.line es) e) k v j →
      WrittenExpr (.calls callee e) i (t :: w ++ u :: v) j
  | property {t u callee e i v j} :
      t.kind = .mark .dot → u.kind = .identifier →
      WrittenExpr (.calls (.get callee u.toName) e) i v j →
      WrittenExpr (.calls callee e) i (t :: u :: v) j
  | lastArgument {e i w j} :
      WrittenExpr (.expression e) i w j → WrittenExpr (.arguments [e]) i w j
  | argument {e t es i w k v j} :
      WrittenExpr (.expression e) i w k → t.kind = .mark .comma →
      WrittenExpr (.arguments es) k v j → WrittenExpr (.arguments (e :: es)) i (w ++ t :: v) j
  | literal {t value i} :
      Literal.ofKind? t.kind = some value → WrittenExpr (.primary (.literal value)) i [t] i
  | inherited {t u v i} :
      t.kind = .keyword .superWord → u.kind = .mark .dot → v.kind = .identifier →
      WrittenExpr (.primary (.inherited i t.line v.toName)) i [t, u, v] (i + 1)
  | receiver {t i} :
      t.kind = .keyword .thisWord → WrittenExpr (.primary (.receiver i t.line)) i [t] (i + 1)
  | name {t i} :
      t.kind = .identifier → WrittenExpr (.primary (.name ⟨i, t.toName⟩)) i [t] (i + 1)
  | grouping {t u e i w j} :
      t.kind = .mark .leftParen → WrittenExpr (.expression e) i w j →
      u.kind = .mark .rightParen → WrittenExpr (.primary (.grouping e)) i (t :: w ++ [u]) j

/-- An expression, or nothing, written out as tokens. -/
inductive WrittenOption : Option Expr → NodeId → List Token → NodeId → Prop where
  | none {i} : WrittenOption none i [] i
  | some {e i w j} : WrittenExpr (.expression e) i w j → WrittenOption (some e) i w j

/-- The superclass of a class, or nothing, written out as tokens. -/
inductive WrittenSuperclass : Option Reference → NodeId → List Token → NodeId → Prop where
  | none {i} : WrittenSuperclass none i [] i
  | some {t u i} :
      t.kind = .mark .less → u.kind = .identifier →
      WrittenSuperclass (some ⟨i, u.toName⟩) i [t, u] (i + 1)

/-- Parameters written out as tokens. -/
inductive WrittenParameters : List Name → List Token → Prop where
  | last {t} : t.kind = .identifier → WrittenParameters [t.toName] [t]
  | more {t u names w} :
      t.kind = .identifier → u.kind = .mark .comma → WrittenParameters names w →
      WrittenParameters (t.toName :: names) (t :: u :: w)

/-- The phrases that statements are read from. -/
inductive StmtPhrase where
  | function (d : FunctionDecl)
  | methods (ds : List FunctionDecl)
  /-- The declaration of a variable from its name on. -/
  | varDeclaration (s : Stmt)
  | expressionStatement (s : Stmt)
  | forInitial (initial : Option Stmt)
  /-- A statement, which may end in an `if` without an `else`. -/
  | statement (dangling : Bool) (s : Stmt)
  | declaration (s : Stmt)
  | declarations (ss : List Stmt)

/-- Statements and declarations written out as tokens. -/
inductive WrittenStmt : StmtPhrase → NodeId → List Token → NodeId → Prop where
  | functionWithout {t u v o c body i w j} :
      t.kind = .identifier → u.kind = .mark .leftParen → v.kind = .mark .rightParen →
      o.kind = .mark .leftBrace → WrittenStmt (.declarations body) i w j →
      c.kind = .mark .rightBrace →
      WrittenStmt (.function ⟨t.toName, [], body⟩) i (t :: u :: v :: o :: w ++ [c]) j
  | functionWith {t u v o c names body i p w j} :
      t.kind = .identifier → u.kind = .mark .leftParen → names.length ≤ maxArity →
      WrittenParameters names p → v.kind = .mark .rightParen → o.kind = .mark .leftBrace →
      WrittenStmt (.declarations body) i w j → c.kind = .mark .rightBrace →
      WrittenStmt (.function ⟨t.toName, names, body⟩) i (t :: u :: p ++ v :: o :: w ++ [c]) j
  | noMethods {i} : WrittenStmt (.methods []) i [] i
  | method {d ds i w k v j} :
      WrittenStmt (.function d) i w k → WrittenStmt (.methods ds) k v j →
      WrittenStmt (.methods (d :: ds)) i (w ++ v) j
  | varWithout {t u i} :
      t.kind = .identifier → u.kind = .mark .semicolon →
      WrittenStmt (.varDeclaration (.var t.toName none)) i [t, u] i
  | varWith {t u v e i w j} :
      t.kind = .identifier → u.kind = .mark .equal → WrittenExpr (.expression e) i w j →
      v.kind = .mark .semicolon →
      WrittenStmt (.varDeclaration (.var t.toName (some e))) i (t :: u :: w ++ [v]) j
  | expressionStatement {e t i w j} :
      WrittenExpr (.expression e) i w j → t.kind = .mark .semicolon →
      WrittenStmt (.expressionStatement (.expression e)) i (w ++ [t]) j
  | noInitial {t i} : t.kind = .mark .semicolon → WrittenStmt (.forInitial none) i [t] i
  | varInitial {t s i w j} :
      t.kind = .keyword .varWord → WrittenStmt (.varDeclaration s) i w j →
      WrittenStmt (.forInitial (some s)) i (t :: w) j
  | expressionInitial {s i w j} :
      WrittenStmt (.expressionStatement s) i w j → WrittenStmt (.forInitial (some s)) i w j
  | forLoop {t o a c dangling initial condition step body i w₁ k w₂ l w₃ m w₄ j} :
      t.kind = .keyword .forWord → o.kind = .mark .leftParen →
      WrittenStmt (.forInitial initial) i w₁ k → WrittenOption condition k w₂ l →
      a.kind = .mark .semicolon → WrittenOption step l w₃ m → c.kind = .mark .rightParen →
      WrittenStmt (.statement dangling body) m w₄ j →
      WrittenStmt (.statement dangling (.forLoop initial condition step body)) i
        (t :: o :: w₁ ++ w₂ ++ a :: w₃ ++ c :: w₄) j
  | ifThen {t o c dangling condition thenBranch i w k v j} :
      t.kind = .keyword .ifWord → o.kind = .mark .leftParen →
      WrittenExpr (.expression condition) i w k → c.kind = .mark .rightParen →
      WrittenStmt (.statement dangling thenBranch) k v j →
      WrittenStmt (.statement true (.ifThen condition thenBranch)) i (t :: o :: w ++ c :: v) j
  | ifElse {t o c e dangling condition thenBranch elseBranch i w k v l u j} :
      t.kind = .keyword .ifWord → o.kind = .mark .leftParen →
      WrittenExpr (.expression condition) i w k → c.kind = .mark .rightParen →
      WrittenStmt (.statement false thenBranch) k v l → e.kind = .keyword .elseWord →
      WrittenStmt (.statement dangling elseBranch) l u j →
      WrittenStmt (.statement dangling (.ifElse condition thenBranch elseBranch)) i
        (t :: o :: w ++ c :: v ++ e :: u) j
  | print {t u e i w j} :
      t.kind = .keyword .printWord → WrittenExpr (.expression e) i w j →
      u.kind = .mark .semicolon → WrittenStmt (.statement false (.print e)) i (t :: w ++ [u]) j
  | giveBack {t u value i w j} :
      t.kind = .keyword .returnWord → WrittenOption value i w j → u.kind = .mark .semicolon →
      WrittenStmt (.statement false (.giveBack t.line value)) i (t :: w ++ [u]) j
  | whileLoop {t o c dangling condition body i w k v j} :
      t.kind = .keyword .whileWord → o.kind = .mark .leftParen →
      WrittenExpr (.expression condition) i w k → c.kind = .mark .rightParen →
      WrittenStmt (.statement dangling body) k v j →
      WrittenStmt (.statement dangling (.loop condition body)) i (t :: o :: w ++ c :: v) j
  | block {o c body i w j} :
      o.kind = .mark .leftBrace → WrittenStmt (.declarations body) i w j →
      c.kind = .mark .rightBrace → WrittenStmt (.statement false (.block body)) i (o :: w ++ [c]) j
  | expression {s i w j} :
      WrittenStmt (.expressionStatement s) i w j → WrittenStmt (.statement false s) i w j
  | classDef {t u o c superclass methods i w k v j} :
      t.kind = .keyword .classWord → u.kind = .identifier →
      WrittenSuperclass superclass i w k → o.kind = .mark .leftBrace →
      WrittenStmt (.methods methods) k v j → c.kind = .mark .rightBrace →
      WrittenStmt (.declaration (.classDef u.toName superclass methods)) i
        (t :: u :: w ++ o :: v ++ [c]) j
  | funDecl {t d i w j} :
      t.kind = .keyword .funWord → WrittenStmt (.function d) i w j →
      WrittenStmt (.declaration (.function d)) i (t :: w) j
  | varDecl {t s i w j} :
      t.kind = .keyword .varWord → WrittenStmt (.varDeclaration s) i w j →
      WrittenStmt (.declaration s) i (t :: w) j
  | statement {dangling s i w j} :
      WrittenStmt (.statement dangling s) i w j → WrittenStmt (.declaration s) i w j
  | noDeclarations {i} : WrittenStmt (.declarations []) i [] i
  | declaration {s ss i w k v j} :
      WrittenStmt (.declaration s) i w k → WrittenStmt (.declarations ss) k v j →
      WrittenStmt (.declarations (s :: ss)) i (w ++ v) j

end ScopedScript
