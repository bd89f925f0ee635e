import ScopedScript.Decimal.Shortest

/-!
# How numbers are written

Four ways of writing a number: in a program's output, in the JSON of tokens, in a printed syntax
tree, and as the literal of a token. The first two write the shortest digits that read back, the
third writes whole numbers out in full.
-/

namespace ScopedScript.Decimal

/-- `n` zeros. -/
def zeros (n : Nat) : String := String.ofList (List.replicate n '0')

/-- A number's digits with the point after the first `point` of them, filled up with zeros. -/
def withPoint (digits : String) (point : Int) : String :=
  let n := digits.length
  if point ≤ 0 then
    "0." ++ zeros (-point).toNat ++ digits
  else if point.toNat < n then
    String.ofList (digits.toList.take point.toNat) ++ "." ++
      String.ofList (digits.toList.drop point.toNat)
  else
    digits ++ zeros (point.toNat - n)

/-- Where the point stands, counted from the first digit. -/
def Scaled.point (s : Scaled) : Int := digitCount s.digits + s.exponent

/-- A minus sign, for a negative number. -/
def sign (negative : Bool) : String := if negative then "-" else ""

/-- The text of a number in a program's output: never an exponent, no point in a whole number, and
a sign on negative zero. -/
def plain (x : Float) : String :=
  match Binary.ofFloat x with
  | .notANumber => "NaN"
  | .infinite negative => sign negative ++ "inf"
  | .finite negative 0 _ => sign negative ++ "0"
  | .finite negative m q =>
    let s := shortest .up m q
    sign negative ++ withPoint (toString s.digits) s.point

/-- The text of a number in JSON: with a point and no exponent from `1e-5` up to, but not
including, `1e16`, and with a signed exponent outside. JSON has no other numbers, so what is not
finite is `null`. -/
def json (x : Float) : String :=
  match Binary.ofFloat x with
  | .notANumber => "null"
  | .infinite _ => "null"
  | .finite negative 0 _ => sign negative ++ "0.0"
  | .finite negative m q =>
    let s := shortest .even m q
    let digits := toString s.digits
    let point := s.point
    sign negative ++
      if -5 < point ∧ point ≤ 16 then
        withPoint digits point ++ if 0 ≤ s.exponent then ".0" else ""
      else
        let fraction := String.ofList (digits.toList.drop 1)
        let exponent := point - 1
        String.ofList (digits.toList.take 1) ++ (if fraction = "" then "" else "." ++ fraction) ++
          "e" ++ (if exponent < 0 then "-" else "+") ++ toString exponent.natAbs

/-- The text of a number in a printed syntax tree: a whole number is written out exactly, followed
by `.0`; any other number reads as in a program's output. -/
def exact (x : Float) : String :=
  let binary := Binary.ofFloat x
  match binary, binary.whole? with
  | .finite negative _ _, some n => sign negative ++ toString n ++ ".0"
  | _, _ => plain x

/-- The magnitude from which the literal of a token no longer shows a fraction. -/
def wholeLiteralBound : Nat := Nat.pow 10 15

/-- The text of a number as the literal of a token: a whole number below `10 ^ 15` is followed by
`.0`, without a sign on zero; any other number reads as in a program's output. -/
def literal (x : Float) : String :=
  let binary := Binary.ofFloat x
  match binary, binary.whole? with
  | .finite negative _ _, some n =>
    if n < wholeLiteralBound then sign (negative && n != 0) ++ toString n ++ ".0" else plain x
  | _, _ => plain x

example : [plain 3.0, plain 0.1, plain 1e21, plain (-0.0), plain (1.0 / 0.0)] =
    ["3", "0.1", "1000000000000000000000", "-0", "inf"] := by
  decide +kernel

example : [json 3.0, json 0.00001, json 1e16, json 1.25e-7, json (-0.0)] =
    ["3.0", "0.00001", "1e+16", "1.25e-7", "-0.0"] := by
  decide +kernel

example : [exact 1e23, exact 1.5] = ["99999999999999991611392.0", "1.5"] := by
  decide +kernel

example : [literal 3.0, literal (-0.0), literal 1e15] = ["3.0", "0.0", "1000000000000000"] := by
  decide +kernel

end ScopedScript.Decimal
