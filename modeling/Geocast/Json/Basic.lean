import Geocast.Decimal.Numeral

/-! # JSON values

The tree of a JSON text. Members of an object keep their order and may repeat a name, and numbers
keep their written form, because what a repeated name or a number too large for a double means is
for the reader of a record to say. -/

namespace Geocast

/-- A JSON value. A string is `none` when an escape in it leaves half of a surrogate pair alone:
such a string is grammatical, so it may be skipped, but it has no text. -/
inductive Json
  | null
  | bool (b : Bool)
  | number (n : Numeral)
  | string (s : Option String)
  | array (items : List Json)
  | object (members : List (Option String × Json))

namespace Json

def text (s : String) : Json := .string (some s)

def nat (n : Nat) : Json := .number (.ofNat n)

/-- A double. NaN and the infinities have no numeral and are written as null. -/
def float (x : Float) : Json :=
  match Numeral.ofFloat? x with
  | some n => .number n
  | none => .null

/-- An object with the given members. -/
def ofMembers (members : List (String × Json)) : Json :=
  .object (members.map fun (name, v) => (some name, v))

/-- A value that may be absent. -/
def ofOption {α : Type} (f : α → Json) : Option α → Json
  | some a => f a
  | none => .null

def string? : Json → Option String
  | .string s => s
  | _ => none

def bool? : Json → Option Bool
  | .bool b => some b
  | _ => none

def float? : Json → Option Float
  | .number n => n.toFloat?
  | _ => none

/-- The number written without sign, point and exponent, if it fits into 64 bits. -/
def nat? : Json → Option Nat
  | .number n => n.toNat?.filter (· < wordBound)
  | _ => none

def array? : Json → Option (List Json)
  | .array vs => some vs
  | _ => none

mutual

/-- Whether everything in a value can be kept: all strings have a text, all numbers a double, and
arrays and objects are nested at most `depth` deep. -/
def isSound (depth : Nat) : Json → Bool
  | .null => true
  | .bool _ => true
  | .number n => n.toFloat?.isSome
  | .string s => s.isSome
  | .array vs => decide (0 < depth) && soundItems (depth - 1) vs
  | .object ms => decide (0 < depth) && soundMembers (depth - 1) ms

/-- `isSound` for each element. -/
def soundItems (depth : Nat) : List Json → Bool
  | [] => true
  | v :: vs => v.isSound depth && soundItems depth vs

/-- `isSound` for each member, names included. -/
def soundMembers (depth : Nat) : List (Option String × Json) → Bool
  | [] => true
  | (name, v) :: ms => name.isSome && v.isSound depth && soundMembers depth ms

end

end Json

end Geocast
