import ScopedScript.Decimal.Binary

/-!
# The shortest decimal that reads back

The reals that round to a given double form an interval around it, which holds its end points when
the mantissa is even. Among the decimal grids of 1, 2, 3, … significant digits the first one with a
point in that interval is taken; such a point is next to the number itself, so only the grid points
just below and just above it need a look. If both lie in the interval the nearer one wins, and the
format says what happens when they are equally near.
-/

namespace ScopedScript.Decimal

/-- The positive number `digits * 10 ^ exponent`. -/
structure Scaled where
  digits : Nat
  exponent : Int
  deriving DecidableEq, Repr

/-- Which of two equally near decimals is taken. -/
inductive Tie where
  /-- The larger one. -/
  | up
  /-- The one whose last digit is even. -/
  | even
  deriving DecidableEq, Repr

/-- The reals that round to one double, in units of `10 ^ -scale`. -/
structure Neighbourhood where
  low : Nat
  value : Nat
  high : Nat
  closed : Bool
  scale : Nat

namespace Neighbourhood

/-- The neighbourhood of the double with mantissa `m` and exponent `q`. Its ends lie half-way to the
next doubles; the one below a power of two is only half as far away as the one above, unless it is
subnormal. -/
def ofBinary (m : Nat) (q : Int) : Neighbourhood :=
  let quarter := q - 2
  let scale := (-quarter).toNat
  let unit := if 0 ≤ quarter then Nat.pow 2 quarter.toNat else Nat.pow 5 scale
  let below := if m = Binary.leastNormal ∧ Binary.leastExponent < q then 1 else 2
  { low := (4 * m - below) * unit
    value := 4 * m * unit
    high := (4 * m + 2) * unit
    closed := m % 2 == 0
    scale := scale }

/-- Whether `x` units round to the double. -/
def holds (n : Neighbourhood) (x : Nat) : Bool :=
  if n.closed then n.low ≤ x && x ≤ n.high else n.low < x && x < n.high

/-- The point of the grid with the given step that stands for the number, if the grid has one that
reads back: a multiple of the step, given by its factor. -/
def pointOn? (n : Neighbourhood) (tie : Tie) (step : Nat) : Option Nat :=
  let below := n.value / step
  let above := below + 1
  match n.holds (below * step), n.holds (above * step) with
  | false, false => none
  | true, false => some below
  | false, true => some above
  | true, true =>
    let toBelow := n.value - below * step
    let toAbove := above * step - n.value
    if toBelow < toAbove then some below
    else if toAbove < toBelow then some above
    else match tie with
      | .up => some above
      | .even => some (if below % 2 = 0 then below else above)

end Neighbourhood

/-- The number of decimal digits of a number. -/
def digitCount (n : Nat) : Nat := (Nat.toDigits 10 n).length

/-- The number without the zeros at the end of its digits; at most `fuel` of them are dropped. -/
def dropZeros : Nat → Scaled → Scaled
  | 0, s => s
  | fuel + 1, s =>
    if s.digits % 10 = 0 then dropZeros fuel ⟨s.digits / 10, s.exponent + 1⟩ else s

/-- The most significant digits a double may need in order to read back. -/
def enoughDigits : Nat := 17

/-- The shortest decimal that reads back as the positive double with mantissa `m` and exponent
`q`. -/
def shortest (tie : Tie) (m : Nat) (q : Int) : Scaled :=
  let near := Neighbourhood.ofBinary m q
  let length := digitCount near.value
  let onGrid (dropped : Nat) : Option Scaled :=
    (near.pointOn? tie (Nat.pow 10 dropped)).map fun d => ⟨d, dropped - near.scale⟩
  let found := (List.range enoughDigits).findSome? fun i => onGrid (length - (i + 1))
  let found := found.getD ⟨near.value, -near.scale⟩
  dropZeros (digitCount found.digits) found

/-- Two decimals of 17 digits are equally near to the 25th power of one half. -/
example : shortest .up (2 ^ 52) (-77) = ⟨29802322387695313, -24⟩ ∧
    shortest .even (2 ^ 52) (-77) = ⟨29802322387695312, -24⟩ := by
  decide +kernel

end ScopedScript.Decimal
