import ScopedScript.Syntax.Cursor

/-!
# Reading expressions

Operators with two operands have six levels, each binding tighter than the one before: `or`, `and`,
equality, comparison, sums and products. All of them group to the left; assignment binds loosest of
all and groups to the right. What is assigned to is read as any other expression, and only an equals
sign after it asks whether it can be assigned to.

The reading functions spend fuel on every call. A text of `n` tokens needs at most a fixed multiple
of `n + 1`.
-/

namespace ScopedScript

/-- A level of operators with two operands. -/
inductive Level where
  | or | and | equality | comparison | sum | product
  deriving DecidableEq, Repr

/-- An operator with two operands. -/
inductive Operator where
  | binary (op : BinaryOp)
  | logical (op : LogicalOp)
  deriving DecidableEq, Repr

namespace Level

/-- The level that binds next tighter; the operands of the last one have no such operators. -/
def tighter? : Level → Option Level
  | or => some and
  | and => some equality
  | equality => some comparison
  | comparison => some sum
  | sum => some product
  | product => none

/-- The operator of a level that a kind of token stands for. -/
def operator? : Level → Kind → Option Operator
  | or, .keyword .orWord => some (.logical .or)
  | and, .keyword .andWord => some (.logical .and)
  | equality, .mark .bangEqual => some (.binary .notEqual)
  | equality, .mark .equalEqual => some (.binary .equal)
  | comparison, .mark .greater => some (.binary .greater)
  | comparison, .mark .greaterEqual => some (.binary .greaterEqual)
  | comparison, .mark .less => some (.binary .less)
  | comparison, .mark .lessEqual => some (.binary .lessEqual)
  | sum, .mark .minus => some (.binary .subtract)
  | sum, .mark .plus => some (.binary .add)
  | product, .mark .slash => some (.binary .divide)
  | product, .mark .star => some (.binary .multiply)
  | _, _ => none

end Level

/-- The expression that an operator makes of its operands. -/
def Operator.apply (line : Nat) (left right : Expr) : Operator → Expr
  | binary op => .binary op line left right
  | logical op => .logical op line left right

/-- The operator that a kind of token in front of its operand stands for. -/
def UnaryOp.ofKind? : Kind → Option UnaryOp
  | .mark .bang => some .not
  | .mark .minus => some .negate
  | _ => none

namespace Reader

mutual

/-- Read an expression. -/
def expression : Nat → Reader Expr
  | 0 => Run.outOfFuel
  | fuel + 1 => do
    let target ← level fuel .or
    let here ← Run.get
    if ← accept .equal then
      let value ← expression fuel
      match target with
      | .name ref => return .assign ref value
      | .get object property => return .set object property value
      | _ => Run.fail (here.blame .invalidTarget)
    return target

/-- Read operands of a level with its operators between them. -/
def level : Nat → Level → Reader Expr
  | 0, _ => Run.outOfFuel
  | fuel + 1, l => do
    let left ← operand fuel l
    operations fuel l left

/-- Read an operand of a level. -/
def operand : Nat → Level → Reader Expr
  | 0, _ => Run.outOfFuel
  | fuel + 1, l =>
    match l.tighter? with
    | some l => level fuel l
    | none => unary fuel

/-- Read the operators of a level and their right operands, after a left operand. -/
def operations : Nat → Level → Expr → Reader Expr
  | 0, _, _ => Run.outOfFuel
  | fuel + 1, l, left => do
    let t ← peek
    match l.operator? t.kind with
    | none => return left
    | some op =>
      advance
      let right ← operand fuel l
      operations fuel l (op.apply t.line left right)

/-- Read an expression that may begin with operators with one operand. -/
def unary : Nat → Reader Expr
  | 0 => Run.outOfFuel
  | fuel + 1 => do
    let t ← peek
    match UnaryOp.ofKind? t.kind with
    | some op =>
      advance
      return .unary op t.line (← unary fuel)
    | none =>
      let callee ← primary fuel
      calls fuel callee

/-- Read the calls and the properties that follow an expression. -/
def calls : Nat → Expr → Reader Expr
  | 0, _ => Run.outOfFuel
  | fuel + 1, callee => do
    if ← accept .leftParen then
      let values ← if ← sees .rightParen then pure [] else arguments fuel 0
      let closing ← expect .rightParen .noArgumentsClosing
      calls fuel (.call callee closing.line values)
    else if ← accept .dot then
      let property ← identifier .noPropertyName
      calls fuel (.get callee property)
    else
      return callee

/-- Read the arguments of a call that come after `count` others. -/
def arguments : Nat → Nat → Reader (List Expr)
  | 0, _ => Run.outOfFuel
  | fuel + 1, count => do
    if maxArity ≤ count then
      blame .tooManyArguments
    else
      let value ← expression fuel
      if ← accept .comma then
        return value :: (← arguments fuel (count + 1))
      return [value]

/-- Read a constant, a name, or an expression in parentheses. -/
def primary : Nat → Reader Expr
  | 0 => Run.outOfFuel
  | fuel + 1 => do
    let t ← peek
    match t.kind with
    | .keyword .falseWord =>
      advance
      return .literal (.bool false)
    | .keyword .trueWord =>
      advance
      return .literal (.bool true)
    | .keyword .nilWord =>
      advance
      return .literal .nil
    | .number value =>
      advance
      return .literal (.number value)
    | .string text =>
      advance
      return .literal (.string text)
    | .keyword .superWord =>
      advance
      let _ ← expect .dot .noSuperDot
      let method ← identifier .noSuperMethod
      return .inherited (← freshId) t.line method
    | .keyword .thisWord =>
      advance
      return .receiver (← freshId) t.line
    | .identifier =>
      advance
      return .name ⟨← freshId, ⟨t.lexeme, t.line⟩⟩
    | .mark .leftParen =>
      advance
      let inner ← expression fuel
      let _ ← expect .rightParen .noGroupingClosing
      return .grouping inner
    | _ => blame .noExpression

end

end Reader

end ScopedScript
