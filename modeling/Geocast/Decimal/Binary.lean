import Geocast.Decimal.Word

/-! # Exact values of floating point numbers

A finite double is a natural mantissa times a power of two. `Binary` is that pair, and
`Binary.ofFloat` reads it off the bits of a `Float`, so that text can be worked out in natural
number arithmetic. -/

namespace Geocast

/-- The magnitude `mantissa * 2 ^ exponent` of a finite double. -/
structure Binary where
  mantissa : Nat
  exponent : Int
  /-- The gap to the next smaller magnitude is half the gap to the next larger one. -/
  narrowBelow : Bool
deriving Repr, DecidableEq

namespace Binary

/-- The magnitude with the given bit pattern, whose sign is ignored. Bits of NaN and of the
infinities are no magnitude, so callers test for these first. -/
def ofBits (bits : UInt64) : Binary :=
  let e := ((bits >>> 52) &&& 0x7FF).toNat
  let f := (bits &&& 0xFFFFFFFFFFFFF).toNat
  if e = 0 then ⟨f, -1074, false⟩ else ⟨0x10000000000000 + f, (e : Int) - 1075, f = 0 && 1 < e⟩

def ofFloat (x : Float) : Binary := ofBits x.toBits

/-- Compares `a * 10 ^ i` with `n * 2 ^ j`. -/
def compareScaled (a : Nat) (i : Int) (n : Nat) (j : Int) : Ordering :=
  compare (a * power 10 i * power 2 (-j)) (n * power 2 j * power 10 (-i))

end Binary

/-- The sign bit of a double, which zeros carry as well. -/
def signBit (x : Float) : Bool := x.toBits >>> 63 = 1

/-- Whether a double is neither NaN nor an infinity. -/
def isFiniteFloat (x : Float) : Bool := !x.isNaN && !x.isInf

end Geocast
