import Geocast.Json.Basic

/-! # Reading JSON

`Json.parse` reads a text that holds one value with blanks around it. The readers of the parts
take the characters that are left and return what they read with what is left after it. -/

namespace Geocast

namespace Json

/-- The characters that may stand between tokens. -/
def isBlank (c : Char) : Bool := c = ' ' || c = '\t' || c = '\n' || c = '\r'

/-- Drops the blanks at the head of a text. -/
def skipBlanks : List Char → List Char
  | [] => []
  | c :: cs => if isBlank c then skipBlanks cs else c :: cs

/-- The value of a hexadecimal digit. -/
def hexDigit? (c : Char) : Option Nat :=
  let n := c.toNat
  if '0'.toNat ≤ n ∧ n ≤ '9'.toNat then some (n - '0'.toNat)
  else if 'a'.toNat ≤ n ∧ n ≤ 'f'.toNat then some (n - 'a'.toNat + 10)
  else if 'A'.toNat ≤ n ∧ n ≤ 'F'.toNat then some (n - 'A'.toNat + 10)
  else none

/-- The number written with four hexadecimal digits. -/
def hex4? (a b c d : Char) : Option Nat := do
  return ((((← hexDigit? a) * 16 + (← hexDigit? b)) * 16 + (← hexDigit? c)) * 16 + (← hexDigit? d))

/-- The character that a one-letter escape stands for. -/
def escaped? : Char → Option Char
  | '"' => some '"'
  | '\\' => some '\\'
  | '/' => some '/'
  | 'b' => some '\x08'
  | 'f' => some '\x0c'
  | 'n' => some '\n'
  | 'r' => some '\r'
  | 't' => some '\t'
  | _ => none

/-- Reads the rest of a string after its opening quote, as code points and the units that escapes
write. Control characters must be escaped. -/
def readUnits : List Char → Option (List Nat × List Char)
  | [] => none
  | '"' :: cs => some ([], cs)
  | '\\' :: 'u' :: a :: b :: c :: d :: cs => do
    let u ← hex4? a b c d
    let (us, rest) ← readUnits cs
    return (u :: us, rest)
  | '\\' :: c :: cs => do
    let e ← escaped? c
    let (us, rest) ← readUnits cs
    return (e.toNat :: us, rest)
  | c :: cs =>
    if c.toNat < 0x20 || c = '\\' then none
    else do
      let (us, rest) ← readUnits cs
      return (c.toNat :: us, rest)

/-- Whether a unit is the first half of a surrogate pair. -/
def isHighSurrogate (u : Nat) : Bool := decide (0xD800 ≤ u) && decide (u < 0xDC00)

/-- Whether a unit is the second half of a surrogate pair. -/
def isLowSurrogate (u : Nat) : Bool := decide (0xDC00 ≤ u) && decide (u < 0xE000)

/-- The characters of a sequence of code points and units: two halves of a surrogate pair make
one character, and a half alone makes none. -/
def assemble : List Nat → Option (List Char)
  | [] => some []
  | [u] => if isHighSurrogate u || isLowSurrogate u then none else some [Char.ofNat u]
  | u :: v :: us =>
    if isHighSurrogate u then
      if isLowSurrogate v then
        (assemble us).map (Char.ofNat (0x10000 + (u - 0xD800) * 0x400 + (v - 0xDC00)) :: ·)
      else none
    else if isLowSurrogate u then none
    else (assemble (v :: us)).map (Char.ofNat u :: ·)

/-- Reads the rest of a string after its opening quote. -/
def readString (cs : List Char) : Option (Option String × List Char) := do
  let (us, rest) ← readUnits cs
  return ((assemble us).map String.ofList, rest)

mutual

/-- Reads a value, with fuel for the values nested in it. -/
def readValue : Nat → List Char → Option (Json × List Char)
  | 0, _ => none
  | fuel + 1, cs =>
    match skipBlanks cs with
    | 'n' :: 'u' :: 'l' :: 'l' :: cs => some (.null, cs)
    | 't' :: 'r' :: 'u' :: 'e' :: cs => some (.bool true, cs)
    | 'f' :: 'a' :: 'l' :: 's' :: 'e' :: cs => some (.bool false, cs)
    | '"' :: cs => do
      let (s, rest) ← readString cs
      return (.string s, rest)
    | '[' :: cs =>
      match skipBlanks cs with
      | ']' :: cs => some (.array [], cs)
      | cs => do
        let (vs, rest) ← readItems fuel cs
        return (.array vs, rest)
    | '\x7b' :: cs =>
      match skipBlanks cs with
      | '\x7d' :: cs => some (.object [], cs)
      | cs => do
        let (ms, rest) ← readMembers fuel cs
        return (.object ms, rest)
    | cs => do
      let (n, rest) ← Numeral.read cs
      return (.number n, rest)

/-- Reads one or more values separated by commas, up to the closing bracket. -/
def readItems : Nat → List Char → Option (List Json × List Char)
  | 0, _ => none
  | fuel + 1, cs => do
    let (v, cs) ← readValue fuel cs
    match skipBlanks cs with
    | ',' :: cs =>
      let (vs, rest) ← readItems fuel cs
      return (v :: vs, rest)
    | ']' :: rest => return ([v], rest)
    | _ => none

/-- Reads one or more members separated by commas, up to the closing brace. -/
def readMembers : Nat → List Char → Option (List (Option String × Json) × List Char)
  | 0, _ => none
  | fuel + 1, cs => do
    let (name, cs) ← match skipBlanks cs with
      | '"' :: cs => readString cs
      | _ => none
    let cs ← match skipBlanks cs with
      | ':' :: cs => some cs
      | _ => none
    let (v, cs) ← readValue fuel cs
    match skipBlanks cs with
    | ',' :: cs =>
      let (ms, rest) ← readMembers fuel cs
      return ((name, v) :: ms, rest)
    | '\x7d' :: rest => return ([(name, v)], rest)
    | _ => none

end

/-- Reads a text of one value. Every value and every separator takes a character, so fuel for
twice the length suffices. -/
def parse (s : String) : Option Json :=
  let cs := s.toList
  match readValue (2 * cs.length + 1) cs with
  | some (v, rest) => if (skipBlanks rest).isEmpty then some v else none
  | none => none

end Json

end Geocast
