/-! # Ascending lists of texts

Texts are ordered by their code points, which is the order of their bytes as well. `ascending`
puts the different texts of a list into this order. -/

namespace Geocast

/-- Inserts a text into an ascending list, unless it is there already. -/
def insertAscending (s : String) : List String → List String
  | [] => [s]
  | t :: ts => if s < t then s :: t :: ts else if s = t then t :: ts else t :: insertAscending s ts

/-- The different texts of a list in ascending order. -/
def ascending (l : List String) : List String := l.foldr insertAscending []

end Geocast
