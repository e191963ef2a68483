import Geocast.Decimal.Shortest

/-! # Text with a fixed number of digits

`fixedText` writes a double with a fixed number of places after the point, `scientificText` with
one digit before and a fixed number after the point of a power of ten, and `plainText` with the
fewest digits that read back, always positionally. The first two round the exact value of the
double, a tie going to the even digit. -/

namespace Geocast

/-- `num / den` rounded to the nearest natural number, a tie to the even one. -/
def roundDiv (num den : Nat) : Nat :=
  let q := num / den
  match compare (2 * (num % den)) den with
  | .lt => q
  | .gt => q + 1
  | .eq => if q % 2 = 0 then q else q + 1

namespace Binary

/-- `x * 10 ^ k` rounded to the nearest natural number, a tie to the even one. -/
def roundScaled (x : Binary) (k : Int) : Nat :=
  roundDiv (x.mantissa * power 2 x.exponent * power 10 k)
    (power 2 (-x.exponent) * power 10 (-k))

end Binary

/-- Pads with zeros on the left. -/
def padLeft (width : Nat) (cs : List Char) : List Char :=
  List.replicate (width - cs.length) '0' ++ cs

/-- Digits with a point before the last `places` of them and at least one digit before it. -/
def pointed (places : Nat) (digits : List Char) : List Char :=
  let ds := padLeft (places + 1) digits
  ds.take (ds.length - places) ++ (if places = 0 then [] else '.' :: ds.drop (ds.length - places))

/-- The text of a double whose magnitude is written by `f`. The sign of zero is kept; NaN has
none. -/
def withSign (x : Float) (f : Binary → List Char) : String :=
  if x.isNaN then "NaN"
  else
    let body := if x.isInf then "inf".toList else f (Binary.ofFloat x)
    String.ofList (if signBit x then '-' :: body else body)

/-- A double with `places` digits after the point. -/
def fixedText (places : Nat) (x : Float) : String :=
  withSign x fun b => pointed places (decimalDigits (b.roundScaled places))

/-- The digits of `x` with `places` after the first, and the power of ten of the first. Rounding
up may add a digit, which moves the power by one. -/
def Binary.scientific (places : Nat) (x : Binary) : Nat × Int :=
  if x.mantissa = 0 then (0, 0)
  else
    let e := x.scale - 1
    let r := x.roundScaled (places - e)
    if r < power 10 (places + 1) then (r, e) else (r / 10, e + 1)

/-- A double as one digit, a point, `places` digits and a power of ten. -/
def scientificText (places : Nat) (x : Float) : String :=
  withSign x fun b =>
    let (digits, e) := b.scientific places
    pointed places (decimalDigits digits) ++ 'e' :: (toString e).toList

/-- A decimal written positionally, without a point when it is integral. -/
def Decimal.plain (d : Decimal) : List Char :=
  if 0 ≤ d.exponent then decimalDigits d.digits ++ List.replicate d.exponent.toNat '0'
  else pointed (-d.exponent).toNat (decimalDigits d.digits)

/-- A double with the fewest digits that read back, positionally whatever its size. -/
def plainText (x : Float) : String :=
  withSign x fun b => (b.shortest .up).plain

end Geocast
