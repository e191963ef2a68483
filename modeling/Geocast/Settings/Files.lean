/-! # Files and paths

The files below a working directory, and how paths lead to them. A path is followed part by part,
so every part but the last must lead to a directory that is there. Paths that leave the working
directory lead nowhere. -/

namespace Geocast

/-- A path from the working directory: the texts between its slashes. -/
abbrev Path := List String

namespace Path

/-- The texts between slashes. -/
def split : List Char → List (List Char)
  | [] => [[]]
  | c :: cs =>
    match c, split cs with
    | '/', parts => [] :: parts
    | c, part :: parts => (c :: part) :: parts
    | c, [] => [[c]]

/-- The path that a text writes. One that begins with a slash does not start from the working
directory. -/
def ofText? (s : String) : Option Path :=
  match s.toList with
  | '/' :: _ => none
  | cs => some ((split cs).map String.ofList)

/-- Whether a part stays where it is. -/
def isIdle (part : String) : Bool := part = "" || part = "."

/-- The names that a path passes, from the innermost to the outermost, when every directory on it is
there. -/
def place (path : Path) : List String :=
  path.foldl (fun names part =>
    if isIdle part then names
    else if part = ".." then names.drop 1
    else part :: names) []

/-! ## Extensions -/

/-- The name at the end of a path, and the parts before it. Parts that stay where they are do not
count, and a path that ends by going up has no name. -/
def splitName? (path : Path) : Option (Path × String) :=
  match path.reverse.dropWhile isIdle with
  | [] => none
  | name :: before => if name = ".." then none else some (before.reverse, name)

/-- A name split at its last dot into a stem and an extension. Without a dot, or with nothing before
it, all of the name is its stem. -/
def splitDot (name : String) : String × Option String :=
  let cs := name.toList.reverse
  match cs.dropWhile (· ≠ '.') with
  | _ :: c :: stem =>
    (String.ofList (c :: stem).reverse, some (String.ofList (cs.takeWhile (· ≠ '.')).reverse))
  | _ => (name, none)

/-- The extension of the name at the end of a path. -/
def extension? (path : Path) : Option String :=
  path.splitName?.bind fun (_, name) => (splitDot name).2

/-- The path with another extension in place of any that its name has. -/
def withExtension? (path : Path) (extension : String) : Option Path :=
  path.splitName?.map fun (before, name) => before ++ [(splitDot name).1 ++ "." ++ extension]

/-- The path with a text written behind it. -/
def followedBy (path : Path) (text : String) : Path := path.modify (path.length - 1) (· ++ text)

/-- What stands for an extension until it is known. -/
def placeholder : String := "dummy"

/-- The path with an extension behind any that its name has. To keep that one, a placeholder is
written behind the path first and is then replaced; where a slash ends the path, the placeholder
makes a name of its own. -/
def extend? (path : Path) (extension : String) : Option Path :=
  if path.extension?.isSome
  then (path.followedBy ("." ++ placeholder)).withExtension? extension
  else path.withExtension? extension

end Path

/-- Directories and files with their texts. A place is given by the names from the innermost to
the outermost, so the working directory itself has none. -/
structure Files where
  directories : List (List String)
  texts : List (List String × String)

namespace Files

/-- Whether there is a directory at a place: one that is listed, or one around a file. -/
def isDirectory (f : Files) (place : List String) : Bool :=
  place.isEmpty || f.directories.contains place ||
    f.texts.any fun e => e.1 ≠ place && place.isSuffixOf e.1

/-- The place that a path leads to from another place. -/
def follow (f : Files) (place : List String) : Path → Option (List String)
  | [] => some place
  | part :: path =>
    if f.isDirectory place then
      if Path.isIdle part then f.follow place path
      else if part = ".." then
        match place with
        | [] => none
        | _ :: outer => f.follow outer path
      else f.follow (part :: place) path
    else none

/-- The text of the file that a path leads to. -/
def read? (f : Files) (path : Path) : Option String :=
  (f.follow [] path).bind fun place => (f.texts.find? fun e => e.1 = place).map Prod.snd

end Files

end Geocast
