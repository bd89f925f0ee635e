/-!
# Binary floating-point numbers, taken apart

A finite double is a whole number times a power of two. Everything said about the decimal text of a
number is said about these two numbers, in exact arithmetic.
-/

namespace ScopedScript.Decimal

/-- What a double stands for. -/
inductive Binary where
  /-- The number `mantissa * 2 ^ exponent`, with its sign; zero keeps one too. -/
  | finite (negative : Bool) (mantissa : Nat) (exponent : Int)
  | infinite (negative : Bool)
  | notANumber
  deriving DecidableEq, Repr

namespace Binary

/-- The least exponent of a double, shared by zero and the subnormal numbers. -/
def leastExponent : Int := -1074

/-- The mantissa with which a binade of normal numbers begins. -/
def leastNormal : Nat := Nat.pow 2 52

/-- Take a double apart by its sign bit, its 11 exponent bits and its 52 fraction bits. -/
def ofFloat (x : Float) : Binary :=
  let bits := x.toBits.toNat
  let negative := bits / Nat.pow 2 63 == 1
  let field := bits / Nat.pow 2 52 % Nat.pow 2 11
  let fraction := bits % Nat.pow 2 52
  if field = 2047 then
    if fraction = 0 then .infinite negative else .notANumber
  else if field = 0 then
    .finite negative fraction leastExponent
  else
    .finite negative (leastNormal + fraction) (leastExponent + (field - 1 : Nat))

/-- The magnitude as a whole number, if it is one. -/
def whole? : Binary → Option Nat
  | .finite _ m q =>
    if 0 ≤ q then some (m * Nat.pow 2 q.toNat)
    else if m % Nat.pow 2 (-q).toNat = 0 then some (m / Nat.pow 2 (-q).toNat)
    else none
  | _ => none

end Binary

end ScopedScript.Decimal
