/-! # Topics

A topic is a name whose levels are separated by slashes. Topics match only when they are equal;
their last level carries the conventions of function calls. -/

namespace Geocast

structure Topic where
  name : String
deriving DecidableEq, Repr

namespace Topic

/-- The last of the levels of a name: what follows its last slash. -/
def lastLevelOf (name : List Char) : List Char :=
  match name with
  | [] => []
  | c :: cs => if '/' ∈ c :: cs then lastLevelOf cs else c :: cs

def lastLevel (t : Topic) : String := String.ofList (lastLevelOf t.name.toList)

def endsWithLevel (t : Topic) (level : String) : Bool := t.lastLevel = level

end Topic

end Geocast
