/-! # Words and powers

The bounds of numbers of 64 bits, and powers with an exponent of either sign. A number scaled by
`b ^ e` is worked out as a quotient of natural numbers, `power b e` above the bar and
`power b (-e)` below it, one of which is always 1. -/

namespace Geocast

/-- One more than the largest number of 64 bits. -/
def wordBound : Nat := 0x10000000000000000

/-- Whether an integer fits into 64 bits with a sign. -/
def fitsWord (i : Int) : Bool :=
  decide (-0x8000000000000000 ≤ i) && decide (i < 0x8000000000000000)

/-- The power `b ^ e`, and 1 for a negative exponent. -/
def power (b : Nat) (e : Int) : Nat := Nat.pow b e.toNat

end Geocast
