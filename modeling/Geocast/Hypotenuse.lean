/-! # Length of the hypotenuse

`hypotenuse x y` is the square root of `x * x + y * y` in doubles, within one unit in the last
place. The legs are scaled by a power of two where their squares would overflow or vanish, and one
step of Newton's method makes up for the rounding of the sum of squares: in `correctedRoot` the
error of the root is worked out from differences of the legs. The order of the legs and their
signs do not matter. -/

namespace Geocast

/-- The double `2 ^ k`, for `k` from -1022 to 1023. -/
def twoTo (k : Int) : Float := Float.ofBits (UInt64.ofNat ((k + 1023).toNat * 0x10000000000000))

/-- The root of the sum of the squares of legs `b ≤ a`, whose squares neither overflow nor
vanish. -/
def correctedRoot (a b : Float) : Float :=
  let h := (a * a + b * b).sqrt
  let excess :=
    if h ≤ 2 * b then
      let d := h - b
      a * (2 * d - a) + (d - 2 * (a - b)) * d
    else
      let d := h - a
      2 * d * (a - 2 * b) + ((4 * d - b) * b + d * d)
  h - excess / (2 * h)

/-- The length of the hypotenuse over finite legs `b ≤ a`, both without sign. A short leg beside a
very long one only decides the rounding. -/
def hypotenuseOver (a b : Float) : Float :=
  if b * twoTo 54 ≤ a then a + b
  else if twoTo 511 < a then
    correctedRoot (a * twoTo (-600)) (b * twoTo (-600)) * twoTo 600
  else if b < twoTo (-459) then
    correctedRoot (a * twoTo 600) (b * twoTo 600) * twoTo (-600)
  else correctedRoot a b

/-- The length of the hypotenuse over two legs. An infinite leg makes it infinite, even beside
NaN. -/
def hypotenuse (x y : Float) : Float :=
  if x.isInf || y.isInf then 1 / 0
  else if x.isNaN || y.isNaN then 0 / 0
  else
    let x := x.abs
    let y := y.abs
    if x < y then hypotenuseOver y x else hypotenuseOver x y

end Geocast
