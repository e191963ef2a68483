import Geocast.Settings.Environment
import Geocast.Settings.Toml.Moment
import Geocast.Settings.Toml.Text

/-! # Scalars of TOML

Values that are written without quotes and brackets: truth values, integers in four bases,
doubles, days and times. -/

namespace Geocast

namespace Toml

/-- Removes underscores, each of which must stand between two digits. -/
def joinDigits (isDigit : Char → Bool) : List Char → Option (List Char)
  | [] => none
  | [c] => if isDigit c then some [c] else none
  | c :: '_' :: d :: cs =>
    if isDigit c && isDigit d then (joinDigits isDigit (d :: cs)).map (c :: ·) else none
  | c :: cs => if isDigit c then (joinDigits isDigit cs).map (c :: ·) else none

/-- An integer if it fits into 64 bits with a sign. -/
def intInRange? (i : Int) : Option Setting :=
  if fitsWord i then some (.int i) else none

/-- The number that digits write to a base. -/
def natToBase? (base : Nat) (cs : List Char) : Option Nat := do
  let isDigit (c : Char) : Bool := (hexNat? [c]).any (· < base)
  (← joinDigits isDigit cs).foldlM (fun n c => (hexNat? [c]).map (base * n + ·)) 0

/-- The digits of a decimal number, which do not begin with a superfluous zero. -/
def decimal? (cs : List Char) : Option (List Char) := do
  let ds ← joinDigits Char.isDigit cs
  if ds.length ≠ 1 ∧ ds.head? = some '0' then none else some ds

/-- An integer in one of the four bases. Only decimal ones have a sign. -/
def readInt? (cs : List Char) : Option Setting :=
  match cs with
  | '0' :: 'x' :: cs => do intInRange? (← natToBase? 16 cs)
  | '0' :: 'o' :: cs => do intInRange? (← natToBase? 8 cs)
  | '0' :: 'b' :: cs => do intInRange? (← natToBase? 2 cs)
  | cs => do
    let (negative, cs) := Setting.unsigned cs
    let n : Int := (← natToBase? 10 (← decimal? cs))
    intInRange? (if negative then -n else n)

/-- A double: a decimal number with a fraction, an exponent or both, or a special value. One that
is beyond the range of doubles is refused. -/
def readFloat? (cs : List Char) : Option Setting := do
  let (negative, cs) := Setting.unsigned cs
  let signed (x : Float) : Setting := .float (if negative then -x else x)
  if cs = "inf".toList then return signed (1 / 0)
  if cs = "nan".toList then return signed (0 / 0)
  let isMark (c : Char) : Bool := c = 'e' || c = 'E'
  let mantissa := cs.takeWhile (!isMark ·)
  let mark := cs.dropWhile (!isMark ·)
  if mark.isEmpty && !mantissa.contains '.' then none
  let whole ← decimal? (mantissa.takeWhile (· ≠ '.'))
  let fraction ← match mantissa.dropWhile (· ≠ '.') with
    | [] => some []
    | _ :: cs => joinDigits Char.isDigit cs
  let exponent ← match mark with
    | [] => some []
    | e :: cs =>
      let (sign, cs) := match cs with
        | '-' :: cs => (['-'], cs)
        | '+' :: cs => ([], cs)
        | cs => ([], cs)
      (joinDigits Char.isDigit cs).map fun ds => e :: (sign ++ ds)
  let x ← Setting.floatOfText? (whole ++ '.' :: fraction ++ exponent)
  if x.isInf then none else return signed x

/-- A day, a time or both, as text. -/
def readMoment? (cs : List Char) : Option Setting :=
  (Moment.ofChars? cs).map fun m => .text (String.ofList m.chars)

/-- A value that is written without quotes and brackets. -/
def readScalar? (cs : List Char) : Option Setting :=
  if cs = "true".toList then some (.bool true)
  else if cs = "false".toList then some (.bool false)
  else (readInt? cs).or ((readFloat? cs).or (readMoment? cs))

/-- Whether a character may stand in a scalar. -/
def isScalarChar (c : Char) : Bool :=
  c.isAlphanum || c = '_' || c = '-' || c = '+' || c = '.' || c = ':'

/-- Whether a text is a day without a time. -/
def isDay (cs : List Char) : Bool := (Day.read cs).any (·.2.isEmpty)

/-- Splits off a scalar. Day and time may stand apart. -/
def takeScalar (cs : List Char) : List Char × List Char :=
  let token := cs.takeWhile isScalarChar
  match cs.dropWhile isScalarChar with
  | ' ' :: c :: rest =>
    if isDay token && c.isDigit then
      (token ++ ' ' :: (c :: rest).takeWhile isScalarChar, (c :: rest).dropWhile isScalarChar)
    else (token, ' ' :: c :: rest)
  | rest => (token, rest)

end Toml

end Geocast
