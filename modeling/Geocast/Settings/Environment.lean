import Geocast.Settings.Setting

/-! # Settings from the environment

A variable of the environment sets the value whose path its name spells out: after the name of
the program, the parts of the path follow two underscores each. The case of names does not
matter: of variables whose names differ only in case the last one counts. A value that looks like a
truth value or a number is read as one. The values are kept by name and in no order of their own;
in which order they are laid on is left open by ranks of their names. -/

namespace Geocast

namespace Setting

/-- A text with its letters in lower case. Of the letters outside ASCII only the Kelvin sign has a
lower case within it; the others occur in no name and no word that is looked for. -/
def lower (cs : List Char) : List Char :=
  cs.map fun c => if c = '\u212a' then 'k' else c.toLower

/-- Takes the sign off a text. -/
def unsigned : List Char → Bool × List Char
  | '-' :: cs => (true, cs)
  | '+' :: cs => (false, cs)
  | cs => (false, cs)

/-- The integer that a whole text writes, if it fits into 64 bits with a sign. -/
def intOfText? (cs : List Char) : Option Int :=
  let (negative, cs) := unsigned cs
  match Digit.span cs with
  | (d :: ds, []) =>
    let n := Digit.value (d :: ds)
    let i : Int := if negative then -n else n
    if fitsWord i then some i else none
  | _ => none

/-- The double nearest to `digits * 10 ^ e`. Beyond the range of doubles it is infinite or
zero. -/
def nearestDecimal (digits : Nat) (e : Int) : Float :=
  if digits = 0 then 0
  else
    let leading : Int := (decimalDigits digits).length + e
    if 400 < leading then 1 / 0
    else if leading < -400 then 0
    else Float.ofScientific digits (e < 0) e.natAbs

/-- The exponent at the end of a text, after its mark; nothing if the text is at its end. -/
def exponentOfText? : List Char → Option Int
  | [] => some 0
  | c :: cs =>
    if c = 'e' ∨ c = 'E' then
      let (negative, cs) := unsigned cs
      match Digit.span cs with
      | (d :: ds, []) =>
        let n : Int := Digit.value (d :: ds)
        some (if negative then -n else n)
      | _ => none
    else none

/-- The magnitude of the double that a whole text writes without a sign. -/
def magnitudeOfText? (cs : List Char) : Option Float :=
  let word := lower cs
  if word = "inf".toList ∨ word = "infinity".toList then some (1 / 0)
  else if word = "nan".toList then some (0 / 0)
  else
    let (whole, cs) := Digit.span cs
    let (fraction, cs) := match cs with
      | '.' :: cs => Digit.span cs
      | cs => ([], cs)
    if whole.isEmpty && fraction.isEmpty then none
    else (exponentOfText? cs).map fun e =>
      nearestDecimal (Digit.value (whole ++ fraction)) (e - fraction.length)

def floatOfText? (cs : List Char) : Option Float :=
  let (negative, cs) := unsigned cs
  (magnitudeOfText? cs).map fun x => if negative then -x else x

/-- What a value of the environment is read as: a truth value, an integer, a double, or else
text. -/
def ofVariable (value : String) : Setting :=
  let cs := value.toList
  let word := lower cs
  if word = "true".toList then bool true
  else if word = "false".toList then bool false
  else match intOfText? cs with
    | some i => int i
    | none =>
      match floatOfText? cs with
      | some x => float x
      | none => text value

/-- Puts a dot in place of two underscores. -/
def dotted : List Char → List Char
  | '_' :: '_' :: cs => '.' :: dotted cs
  | c :: cs => c :: dotted cs
  | [] => []

/-- What the names of all variables begin with, in lower case. -/
def variableStart : List Char := "geobroker__".toList

/-- The dotted name of the value that a variable sets. Other variables set none. -/
def nameOfVariable? (v : String) : Option String :=
  let cs := lower v.toList
  if variableStart.isPrefixOf cs then some (String.ofList (dotted (cs.drop variableStart.length)))
  else none

/-- Notes the value that a variable sets in place of any under its name. -/
def putVariable (es : List (String × Setting)) (v : String × String) : List (String × Setting) :=
  match nameOfVariable? v.1 with
  | some name => put name (ofVariable v.2) es
  | none => es

/-- The values that the environment sets, by name. -/
def valuesOf (env : List (String × String)) : List (String × Setting) := env.foldl putVariable []

/-- Puts an entry in front of the first one that does not rank below it. -/
def place (rank : String → Nat) (e : String × Setting) :
    List (String × Setting) → List (String × Setting)
  | [] => [e]
  | f :: es => if rank e.1 ≤ rank f.1 then e :: f :: es else f :: place rank e es

/-- Entries in the order of the ranks of their names. -/
def arrange (rank : String → Nat) (es : List (String × Setting)) : List (String × Setting) :=
  es.foldr (place rank) []

end Setting

end Geocast
