import Geocast.Decimal.Places
import Geocast.Json.Basic

/-! # Settings as trees

A configuration source yields a tree of named values. Values are converted when they are asked
for: a number may be asked for as text, a text as a number. Later sources are laid over earlier
ones, group by group. -/

namespace Geocast

inductive Setting
  | absent
  | bool (b : Bool)
  | int (i : Int)
  | float (x : Float)
  | text (s : String)
  | list (items : List Setting)
  | group (entries : List (String × Setting))

namespace Setting

/-! ## Conversions -/

/-- A value as text: booleans and numbers in their shortest written form. -/
def text? : Setting → Option String
  | text s => some s
  | bool b => some (if b then "true" else "false")
  | int i => some (toString i)
  | float x => some (plainText x)
  | _ => none

/-- A double rounded to a natural number of 64 bits, a half away from zero. What lies outside
goes to the nearer end, and NaN to zero. -/
def roundToNat (x : Float) : Nat :=
  let limit := wordBound - 1
  if x.isNaN || signBit x then 0
  else if x.isInf then limit
  else
    let b := Binary.ofFloat x
    let num := b.mantissa * power 2 b.exponent
    let den := power 2 (-b.exponent)
    min limit ((2 * num + den) / (2 * den))

/-- The number that decimal digits write, after an optional plus sign. -/
def natOfText? (s : String) : Option Nat :=
  let cs := match s.toList with
    | '+' :: cs => cs
    | cs => cs
  match Digit.span cs with
  | (d :: ds, []) => some (Digit.value (d :: ds))
  | _ => none

/-- A value as a number below `bound`. Words for yes and no count as one and zero, and doubles
are rounded. -/
def nat? (bound : Nat) (v : Setting) : Option Nat :=
  let n := match v with
    | int i => if 0 ≤ i then some i.toNat else none
    | bool b => some (if b then 1 else 0)
    | float x => some (roundToNat x)
    | text s =>
      let word := String.ofList (s.toList.map Char.toLower)
      if word ∈ ["true", "on", "yes"] then some 1
      else if word ∈ ["false", "off", "no"] then some 0
      else natOfText? s
    | _ => none
  n.filter (· < bound)

/-! ## Layers -/

/-- The entries of a group. Any other value counts as an empty group. -/
def entries : Setting → List (String × Setting)
  | group es => es
  | _ => []

def lookup (name : String) (es : List (String × Setting)) : Option Setting :=
  (es.find? fun e => e.1 = name).map Prod.snd

/-- Gives a name a value in place of any it had. -/
def put (name : String) (v : Setting) : List (String × Setting) → List (String × Setting)
  | [] => [(name, v)]
  | e :: es => if e.1 = name then (name, v) :: es else e :: put name v es

mutual

/-- Lays a value over another. Groups are merged; anything else replaces what was there. -/
def overlay (base : Setting) : Setting → Setting
  | group es => group (overlayEntries base.entries es)
  | v => v

/-- Lays entries over others, one after the other. -/
def overlayEntries (base : List (String × Setting)) :
    List (String × Setting) → List (String × Setting)
  | [] => base
  | (name, v) :: es =>
    overlayEntries (put name (overlay ((lookup name base).getD absent) v) base) es

end

/-- The items of a list. Any other value counts as an empty list. -/
def items : Setting → List Setting
  | list vs => vs
  | _ => []

/-- One step of a path: to the value under a name, or to an item of a list. -/
inductive Step
  | name (s : String)
  /-- Items count from 0; negative ones count from the end, which is -1. -/
  | item (i : Int)
deriving DecidableEq, Repr

/-- Extends a list by absent items at the end or at the front until it has item `i`, and returns
it with the place of that item. -/
def reach (vs : List Setting) (i : Int) : List Setting × Nat :=
  let n := i.natAbs
  if 0 ≤ i then (vs ++ List.replicate (n + 1 - vs.length) absent, n)
  else (List.replicate (n - vs.length) absent ++ vs, vs.length - n)

/-- Lays a value over what stands at the end of a path. What stands in the way becomes a group or
a list. -/
def overlayPath (base : Setting) (v : Setting) : List Step → Setting
  | [] => overlay base v
  | .name s :: path =>
    let es := base.entries
    group (put s (overlayPath ((lookup s es).getD absent) v path) es)
  | .item i :: path =>
    let (vs, n) := reach base.items i
    list (vs.modify n fun b => overlayPath b v path)

/-- Whether a character may stand in a name of a path. -/
def isNameChar (c : Char) : Bool := c.isAlphanum || c = '_' || c = '-'

def skipSpaces (cs : List Char) : List Char := cs.dropWhile fun c => c = ' ' || c = '\t'

/-- Reads an item number up to its closing bracket. -/
def readItem (cs : List Char) : Option (Int × List Char) :=
  let (negative, cs) := match skipSpaces cs with
    | '-' :: cs => (true, cs)
    | cs => (false, cs)
  match Digit.span cs with
  | ([], _) => none
  | (ds, cs) =>
    let n : Int := Digit.value ds
    let i := if negative then -n else n
    match skipSpaces cs with
    | ']' :: rest => if fitsWord i then some (i, rest) else none
    | _ => none

/-- Reads steps, at most `fuel` of them: names after a dot, item numbers in brackets. -/
def readSteps : (fuel : Nat) → List Char → Option (List Step)
  | _, [] => some []
  | fuel + 1, '.' :: cs =>
    let name := cs.takeWhile isNameChar
    if name.isEmpty then none
    else (readSteps fuel (cs.dropWhile isNameChar)).map (.name (String.ofList name) :: ·)
  | fuel + 1, '[' :: cs =>
    (readItem cs).bind fun (i, rest) => (readSteps fuel rest).map (.item i :: ·)
  | _, _ => none

/-- The path that a name such as `a.b[0]` stands for. A name that is not well formed is a path of
its own. -/
def pathOf (name : String) : List Step :=
  let cs := name.toList
  (readSteps (cs.length + 1) ('.' :: cs)).getD [.name name]

/-- Lays the entries of a source over a tree. The outermost names may be paths. -/
def overlaySource (base : Setting) (source : List (String × Setting)) : Setting :=
  source.foldl (fun base (name, v) => overlayPath base v (pathOf name)) base

/-! ## From JSON -/

/-- A number as a setting: an integer if it is written as one and fits into 64 bits, with a sign
or without. -/
def ofNumeral? (n : Numeral) : Option Setting :=
  let i : Int := if n.negative then -n.whole else n.whole
  let fits := fitsWord i || (decide (0 ≤ i) && decide (n.whole < wordBound))
  if n.fraction.isEmpty && n.exponent.isNone && fits && !(n.negative && n.whole = 0)
  then some (int i)
  else n.toFloat?.map float

mutual

/-- The setting that a JSON value stands for. Of members with one name the last counts. -/
def ofJson? : Json → Option Setting
  | .null => some absent
  | .bool b => some (bool b)
  | .number n => ofNumeral? n
  | .string s => s.map text
  | .array vs => (ofItems? vs).map list
  | .object ms => (ofMembers? [] ms).map group

/-- The settings that JSON values stand for. -/
def ofItems? : List Json → Option (List Setting)
  | [] => some []
  | v :: vs => do return (← ofJson? v) :: (← ofItems? vs)

/-- Adds the entries that members stand for. -/
def ofMembers? (es : List (String × Setting)) :
    List (Option String × Json) → Option (List (String × Setting))
  | [] => some es
  | (name, v) :: ms => do
    ofMembers? (put (← name) (← ofJson? v) es) ms

end

end Setting

end Geocast
