import ScopedScript.Eval.Fault
import ScopedScript.Store.Value

/-!
# Operators on values

Any two values can be compared for equality. Strings can be joined, and everything else that has
two operands wants two numbers. No value is turned into one of another sort.
-/

namespace ScopedScript

/-- The value of an operation with one operand. -/
def UnaryOp.apply : UnaryOp → Value → Except RuntimeFault Value
  | negate, .number x => .ok (.number (-x))
  | negate, _ => .error .operandNotNumber
  | not, v => .ok (.bool !v.isTruthy)

/-- The value of an operation on two numbers. -/
def BinaryOp.applyNumbers (x y : Float) : BinaryOp → Value
  | add => .number (x + y)
  | subtract => .number (x - y)
  | multiply => .number (x * y)
  | divide => .number (x / y)
  | equal => .bool (x == y)
  | notEqual => .bool (x != y)
  | less => .bool (x < y)
  | lessEqual => .bool (x ≤ y)
  | greater => .bool (y < x)
  | greaterEqual => .bool (y ≤ x)

/-- What an operation that wants two numbers says of other operands. -/
def BinaryOp.mismatch : BinaryOp → RuntimeFault
  | add => .operandsNotNumbersOrStrings
  | _ => .operandsNotNumbers

/-- The value of an operation with two operands. -/
def BinaryOp.apply (op : BinaryOp) (v w : Value) : Except RuntimeFault Value :=
  match op, v, w with
  | .equal, v, w => .ok (.bool (v.equal w))
  | .notEqual, v, w => .ok (.bool !v.equal w)
  | .add, .string a, .string b => .ok (.string (a ++ b))
  | op, .number x, .number y => .ok (op.applyNumbers x y)
  | op, _, _ => .error op.mismatch

/-- Whether the first operand already decides the value of an operation. -/
def LogicalOp.decides : LogicalOp → Value → Bool
  | or, v => v.isTruthy
  | and, v => !v.isTruthy

end ScopedScript
