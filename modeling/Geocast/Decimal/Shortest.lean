import Geocast.Decimal.Binary

/-! # The fewest decimal digits that read back

`Binary.shortest` picks, for a finite double, the decimal with the fewest digits among those
that round to the double, and of those the nearest to it. The reals that round to a double form
an interval (`Binary.readsBack`); on each decimal grid, coarse to fine, only the two neighbours
of the double can lie in it, so the search tests these two. -/

namespace Geocast

/-- The number `digits * 10 ^ exponent`. -/
structure Decimal where
  digits : Nat
  exponent : Int
deriving Repr, DecidableEq

/-- Where a number halfway between two candidates goes. -/
inductive Tie
  | toEven
  | up
deriving Repr, DecidableEq

namespace Binary

/-- Whether `d` lies among the reals that round to `x`, to the nearest and ties to even. -/
def readsBack (x : Binary) (d : Decimal) : Bool :=
  let low := if x.narrowBelow then 4 * x.mantissa - 1 else 4 * x.mantissa - 2
  let high := 4 * x.mantissa + 2
  let even := x.mantissa % 2 = 0
  let atLow := compareScaled d.digits d.exponent low (x.exponent - 2)
  let atHigh := compareScaled d.digits d.exponent high (x.exponent - 2)
  (atLow = .gt || (even && atLow = .eq)) && (atHigh = .lt || (even && atHigh = .eq))

/-- The least `k` with `x < 10 ^ k`, for a nonzero `x`. The binary logarithm fixes it up to a
few candidates. -/
def scale (x : Binary) : Int :=
  let guess := ((x.mantissa.log2 : Int) + x.exponent) * 30103 / 100000 - 1
  let above (i : Nat) : Bool := compareScaled 1 (guess + i) x.mantissa x.exponent = .gt
  guess + ((List.range 5).find? above).getD 5

/-- The two neighbours of `x` on the multiples of `10 ^ e`, the lower one first. -/
def neighbours (x : Binary) (e : Int) : Nat × Nat :=
  let below := x.mantissa * power 2 x.exponent * power 10 (-e)
    / (power 10 e * power 2 (-x.exponent))
  (below, below + 1)

/-- A point of the grid of multiples of `10 ^ e` that reads back as `x`, the nearer of two. -/
def onGrid? (tie : Tie) (x : Binary) (e : Int) : Option Decimal :=
  let (a, b) := x.neighbours e
  match x.readsBack ⟨a, e⟩, x.readsBack ⟨b, e⟩ with
  | true, false => some ⟨a, e⟩
  | false, true => some ⟨b, e⟩
  | false, false => none
  | true, true =>
    match compareScaled (a + b) e (2 * x.mantissa) x.exponent with
    | .gt => some ⟨a, e⟩
    | .lt => some ⟨b, e⟩
    | .eq =>
      match tie with
      | .up => some ⟨b, e⟩
      | .toEven => if a % 2 = 0 then some ⟨a, e⟩ else some ⟨b, e⟩

def exact (x : Binary) : Decimal :=
  if 0 ≤ x.exponent then ⟨x.mantissa * power 2 x.exponent, 0⟩
  else ⟨x.mantissa * power 5 (-x.exponent), x.exponent⟩

end Binary

namespace Decimal

/-- Moves up to `n` zeros from the end of the digits into the exponent. -/
def strip : Nat → Decimal → Decimal
  | 0, d => d
  | n + 1, d => if d.digits % 10 = 0 then strip n ⟨d.digits / 10, d.exponent + 1⟩ else d

end Decimal

namespace Binary

/-- The shortest decimal that reads back as `x`; zero is written with the digit zero. -/
def shortest (tie : Tie) (x : Binary) : Decimal :=
  if x.mantissa = 0 then ⟨0, 0⟩
  else
    let k := x.scale
    let d := ((List.range 17).findSome? fun (n : Nat) => x.onGrid? tie (k - (n + 1))).getD x.exact
    d.strip 400

end Binary

/-- The decimal digits of a number, the most significant first. -/
def decimalDigits (n : Nat) : List Char := Nat.toDigits 10 n

namespace Decimal

/-- The power of ten of the leading digit. -/
def leading (d : Decimal) : Int := (decimalDigits d.digits).length - 1 + d.exponent

end Decimal

end Geocast
