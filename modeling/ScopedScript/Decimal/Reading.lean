/-!
# Reading decimal texts

A decimal text stands for the double nearest to it, the even one if two are equally near. A number
of a program is digits with at most a fraction; a number that comes from outside may also have a
sign and an exponent, or be an infinity or not a number.
-/

namespace ScopedScript.Decimal

/-- The number that decimal digits stand for. -/
def ofDigits (digits : List Char) : Nat :=
  digits.foldl (fun n c => n * 10 + (c.toNat - '0'.toNat)) 0

/-- Decimal exponents of nonzero doubles lie well within this distance of zero. -/
def exponentBound : Int := 400

/-- The double nearest to `n * 10 ^ e`. Exponents that no nonzero double comes near to are cut
short, so that no huge power is computed for them. -/
def round (n : Nat) (e : Int) : Float :=
  let length : Int := (Nat.toDigits 10 n).length
  if n = 0 then 0.0
  else if exponentBound < length + e then 1.0 / 0.0
  else if length + e < -exponentBound then 0.0
  else if 0 ≤ e then Float.ofScientific n false e.toNat
  else Float.ofScientific n true (-e).toNat

/-- The double that a number literal stands for, given its digits before and after the point. -/
def ofParts (whole fraction : List Char) : Float :=
  round (ofDigits (whole ++ fraction)) (-(fraction.length : Int))

/-- Split a text at its leading digits. -/
def spanDigits (cs : List Char) : List Char × List Char :=
  (cs.takeWhile Char.isDigit, cs.dropWhile Char.isDigit)

/-- Read an exponent, `none` if it is not one; the empty text is the exponent 0. -/
def readExponent? : List Char → Option Int
  | [] => some 0
  | e :: cs =>
    if e != 'e' && e != 'E' then none
    else
      let (negative, digits) := match cs with
        | '-' :: rest => (true, rest)
        | '+' :: rest => (false, rest)
        | rest => (false, rest)
      if digits.isEmpty || !digits.all Char.isDigit then none
      else
        let n : Int := ofDigits digits
        some (if negative then -n else n)

/-- Read an unsigned number. -/
def readMagnitude? (cs : List Char) : Option Float :=
  match (String.ofList cs).toLower with
  | "inf" | "infinity" => some (1.0 / 0.0)
  | "nan" => some (0.0 / 0.0)
  | _ =>
    let (whole, rest) := spanDigits cs
    let (fraction, rest) := match rest with
      | '.' :: rest => spanDigits rest
      | rest => ([], rest)
    if whole.isEmpty && fraction.isEmpty then none
    else (readExponent? rest).map fun e =>
      round (ofDigits (whole ++ fraction)) (e - fraction.length)

/-- Read a number with an optional sign. -/
def read? (text : String) : Option Float :=
  match text.toList with
  | '-' :: cs => (readMagnitude? cs).map (-·)
  | '+' :: cs => readMagnitude? cs
  | cs => readMagnitude? cs

end ScopedScript.Decimal
