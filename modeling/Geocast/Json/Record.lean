import Geocast.Json.Basic

/-! # Records in JSON

A record is written as an object with a member per field, or as an array of the fields in their
order. Members with other names are skipped, and a field must not occur twice. A variant is a
record with a tag, which is a member of the object or the first element of the array. -/

namespace Geocast

namespace Json

/-- The value of the member called `name`, if there is one. Two of them are refused. -/
def member? (name : String) (members : List (Option String × Json)) : Option (Option Json) :=
  match members.filter fun m => m.1 = some name with
  | [] => some none
  | [m] => some (some m.2)
  | _ => none

/-- The fields of a record, in the order of `names`; one that is absent is `none`. In an array
only the last `optional` fields may be absent. -/
def fields? (names : List String) (optional : Nat) : Json → Option (List (Option Json))
  | .array vs =>
    if names.length ≤ vs.length + optional ∧ vs.length ≤ names.length then
      some (vs.map some ++ List.replicate (names.length - vs.length) none)
    else none
  | .object ms => if ms.all (·.1.isSome) then names.mapM (member? · ms) else none
  | _ => none

/-- The tag of a variant and the record of its other fields. -/
def variant? (tag : String) : Json → Option (Json × Json)
  | .array (t :: vs) => some (t, .array vs)
  | .object ms =>
    match member? tag ms with
    | some (some t) => some (t, .object (ms.filter fun m => m.1 ≠ some tag))
    | _ => none
  | _ => none

/-- A field that must be present. -/
def required {α : Type} (f : Json → Option α) : Option Json → Option α
  | some v => f v
  | none => none

/-- A field that may be absent or null. -/
def nullable {α : Type} (f : Json → Option α) : Option Json → Option (Option α)
  | none => some none
  | some .null => some none
  | some v => (f v).map some

/-- A name out of a fixed list. It may also be written as an object whose only member has that
name and a value without content. -/
def name? (isEmptyValue : Json → Bool) : Json → Option String
  | .string s => s
  | .object [(name, v)] => if isEmptyValue v then name else none
  | _ => none

def isNull : Json → Bool
  | .null => true
  | _ => false

/-- Whether a value is null or an object without members. -/
def isNullOrEmpty : Json → Bool
  | .null => true
  | .object [] => true
  | _ => false

end Json

end Geocast
