import Geocast.Decimal.Shortest

/-! # Numerals

A numeral is the written form of a number: a sign, a whole part without leading zeros, the digits
after the point and a power of ten. `Numeral.chars` writes it, `Numeral.read` reads the longest
numeral at the head of a text, and `Numeral.toFloat?` and `Numeral.ofFloat?` relate numerals to
doubles. -/

namespace Geocast

abbrev Digit := Fin 10

namespace Digit

def toChar (d : Digit) : Char := Nat.digitChar d

def ofChar? (c : Char) : Option Digit :=
  if h : '0'.toNat ≤ c.toNat ∧ c.toNat ≤ '9'.toNat then
    some ⟨c.toNat - '0'.toNat, by
      have h0 : '0'.toNat = 48 := rfl
      have h9 : '9'.toNat = 57 := rfl
      omega⟩
  else none

/-- The digits at the head of a text and what follows them. -/
def span : List Char → List Digit × List Char
  | [] => ([], [])
  | c :: cs =>
    match ofChar? c with
    | some d => let (ds, rest) := span cs; (d :: ds, rest)
    | none => ([], c :: cs)

/-- The number that digits stand for, the most significant first. -/
def value (ds : List Digit) : Nat := ds.foldl (fun (n : Nat) (d : Digit) => 10 * n + d) 0

/-- The digits of a number, the most significant first. -/
def ofNat (n : Nat) : List Digit := (decimalDigits n).filterMap ofChar?

end Digit

/-- A number as it is written. -/
structure Numeral where
  negative : Bool
  whole : Nat
  /-- The digits after the point; without any there is no point. -/
  fraction : List Digit
  /-- The power of ten after the exponent mark, if there is one. -/
  exponent : Option Int
deriving Repr, DecidableEq

namespace Numeral

def ofNat (n : Nat) : Numeral := ⟨false, n, [], none⟩

/-- The natural number that a numeral writes without sign, point and exponent. -/
def toNat? (n : Numeral) : Option Nat :=
  if n.negative || !n.fraction.isEmpty || n.exponent.isSome then none else some n.whole

/-- The text of a numeral. An exponent is written with its sign. -/
def chars (n : Numeral) : List Char :=
  (if n.negative then ['-'] else []) ++ decimalDigits n.whole
    ++ (if n.fraction.isEmpty then [] else '.' :: n.fraction.map Digit.toChar)
    ++ (match n.exponent with
      | none => []
      | some (.ofNat e) => 'e' :: '+' :: decimalDigits e
      | some (.negSucc e) => 'e' :: '-' :: decimalDigits (e + 1))

/-- Reads a whole part: one zero, or digits that do not begin with zero. -/
def readWhole (cs : List Char) : Option (Nat × List Char) :=
  match Digit.span cs with
  | ([], _) => none
  | ([d], rest) => some (d, rest)
  | (d :: ds, rest) => if d = 0 then none else some (Digit.value (d :: ds), rest)

/-- Reads the digits after a point, if a point comes next. -/
def readFraction : List Char → Option (List Digit × List Char)
  | '.' :: cs =>
    match Digit.span cs with
    | ([], _) => none
    | (ds, rest) => some (ds, rest)
  | cs => some ([], cs)

/-- Reads an exponent, if its mark comes next. -/
def readExponent : List Char → Option (Option Int × List Char)
  | c :: cs =>
    if c = 'e' ∨ c = 'E' then
      let (negative, cs) := match cs with
        | '-' :: cs => (true, cs)
        | '+' :: cs => (false, cs)
        | cs => (false, cs)
      match Digit.span cs with
      | ([], _) => none
      | (ds, rest) =>
        let e : Int := Digit.value ds
        some (some (if negative then -e else e), rest)
    else some (none, c :: cs)
  | [] => some (none, [])

/-- Reads the longest numeral at the head of a text. -/
def read (cs : List Char) : Option (Numeral × List Char) := do
  let (negative, cs) := match cs with
    | '-' :: cs => (true, cs)
    | cs => (false, cs)
  let (whole, cs) ← readWhole cs
  let (fraction, cs) ← readFraction cs
  let (exponent, cs) ← readExponent cs
  return (⟨negative, whole, fraction, exponent⟩, cs)

/-! ## Value -/

/-- Appends digits to a significand as long as it fits into 64 bits, and returns the digits
that no longer fit. -/
def gather (significand : Nat) : List Digit → Nat × List Digit
  | [] => (significand, [])
  | d :: ds =>
    if 10 * significand + d < wordBound then gather (10 * significand + d) ds
    else (significand, d :: ds)

/-- The double nearest to a power of ten, up to `10 ^ 308`. -/
def powerOfTen (e : Nat) : Float := Float.ofScientific 1 false e

/-- `x * 10 ^ e` by one multiplication, refused if it overflows. -/
def scaleUp (x : Float) (e : Nat) : Option Float :=
  if e ≤ 308 then
    let y := x * powerOfTen e
    if y.isInf then none else some y
  else if x == 0 then some x else none

/-- `x / 10 ^ e` for a significand `x` by at most two divisions; beyond them it vanishes. -/
def scaleDown (x : Float) (e : Nat) : Float :=
  if e ≤ 308 then x / powerOfTen e
  else if e ≤ 616 then x / powerOfTen 308 / powerOfTen (e - 308)
  else 0

/-- The double that a numeral stands for. The digits that fit into 64 bits form the significand,
each further digit of the whole part counts as a power of ten, and the significand is scaled by
a rounded multiplication or division. So a numeral with more than fifteen digits may be off by a
unit in the last place; one that overflows has no value. -/
def toFloat? (n : Numeral) : Option Float :=
  let (s, dropped) := gather 0 (Digit.ofNat n.whole)
  let (s, unread) := gather s n.fraction
  let e : Int := dropped.length - (n.fraction.length - unread.length : Nat) + n.exponent.getD 0
  let x := Float.ofNat s
  let magnitude := match e with
    | .ofNat e => scaleUp x e
    | .negSucc e => some (scaleDown x (e + 1))
  if n.negative then magnitude.map (-·) else magnitude

/-- The shortest decimal as a numeral: positional when the leading digit has a power of ten from
-5 to 15, then with at least one digit after the point, and with an exponent otherwise. -/
def ofDecimal (negative : Bool) (d : Decimal) : Numeral :=
  let ds := Digit.ofNat d.digits
  let e := d.leading
  if -5 ≤ e ∧ e ≤ 15 then
    if 0 ≤ d.exponent then ⟨negative, d.digits * power 10 d.exponent, [0], none⟩
    else
      let places := (-d.exponent).toNat
      let ds := List.replicate (places - ds.length) 0 ++ ds
      ⟨negative, Digit.value (ds.take (ds.length - places)), ds.drop (ds.length - places), none⟩
  else ⟨negative, Digit.value (ds.take 1), ds.drop 1, some e⟩

/-- The numeral of a double: the fewest digits that read back. NaN and the infinities have
none. -/
def ofFloat? (x : Float) : Option Numeral :=
  if isFiniteFloat x then some (ofDecimal (signBit x) ((Binary.ofFloat x).shortest .toEven))
  else none

end Numeral

end Geocast
