import Geocast.Json.Reader

/-! # The text of TOML files

What separates values in a TOML file (blanks, comments, line ends), strings in their four forms,
and keys. A reader takes a prefix of the characters left and returns what follows it. -/

namespace Geocast

namespace Toml

/-! ## Blanks and comments -/

def skipSpaces (cs : List Char) : List Char := cs.dropWhile fun c => c = ' ' || c = '\t'

/-- Whether a character may not stand in a comment or a string as it is. -/
def isControl (c : Char) : Bool := (c.toNat < 0x20 && c ≠ '\t') || c.toNat = 0x7F

/-- Drops a comment up to the end of its line. -/
def skipComment : List Char → Option (List Char)
  | [] => some []
  | '\n' :: cs => some ('\n' :: cs)
  | '\r' :: '\n' :: cs => some ('\n' :: cs)
  | c :: cs => if isControl c then none else skipComment cs

/-- Drops spaces and a comment. -/
def skipToLineEnd (cs : List Char) : Option (List Char) :=
  match skipSpaces cs with
  | '#' :: cs => skipComment cs
  | cs => some cs

def dropLineEnd : List Char → Option (List Char)
  | '\n' :: cs => some cs
  | '\r' :: '\n' :: cs => some cs
  | _ => none

/-- Drops the rest of a line, which must hold nothing but a comment. -/
def endLine (cs : List Char) : Option (List Char) := do
  match ← skipToLineEnd cs with
  | [] => some []
  | cs => dropLineEnd cs

/-- Drops spaces, comments and line ends, at most `fuel` lines. -/
def skipLines : Nat → List Char → Option (List Char)
  | 0, cs => some cs
  | fuel + 1, cs => do
    let cs ← skipToLineEnd cs
    match dropLineEnd cs with
    | some cs => skipLines fuel cs
    | none => some cs

/-! ## Strings -/

/-- The number that hexadecimal digits write. -/
def hexNat? (cs : List Char) : Option Nat :=
  cs.foldlM (fun n c => (Json.hexDigit? c).map (16 * n + ·)) 0

/-- The character with a code point written in hexadecimal digits. -/
def hexChar? (cs : List Char) : Option Char := do
  let n ← hexNat? cs
  if n.isValidChar then some (Char.ofNat n) else none

/-- The character that a one-letter escape stands for. -/
def escaped? : Char → Option Char
  | 'b' => some '\x08'
  | 't' => some '\t'
  | 'n' => some '\n'
  | 'f' => some '\x0c'
  | 'r' => some '\r'
  | 'e' => some '\x1b'
  | '"' => some '"'
  | '\\' => some '\\'
  | _ => none

/-- Puts a character before the text that was read. -/
def prepend (c : Char) : Option (List Char × List Char) → Option (List Char × List Char) :=
  Option.map fun r => (c :: r.1, r.2)

/-- Reads the rest of a string in double quotes. -/
def readBasic : List Char → Option (List Char × List Char)
  | [] => none
  | '"' :: cs => some ([], cs)
  | '\\' :: 'x' :: a :: b :: cs =>
    (hexChar? [a, b]).bind fun x => prepend x (readBasic cs)
  | '\\' :: 'u' :: a :: b :: c :: d :: cs =>
    (hexChar? [a, b, c, d]).bind fun x => prepend x (readBasic cs)
  | '\\' :: 'U' :: a :: b :: c :: d :: e :: f :: g :: h :: cs =>
    (hexChar? [a, b, c, d, e, f, g, h]).bind fun x => prepend x (readBasic cs)
  | '\\' :: c :: cs => (escaped? c).bind fun x => prepend x (readBasic cs)
  | c :: cs => if isControl c then none else prepend c (readBasic cs)

/-- Reads the rest of a string in single quotes, which knows no escapes. -/
def readLiteral : List Char → Option (List Char × List Char)
  | [] => none
  | '\'' :: cs => some ([], cs)
  | c :: cs => if isControl c then none else prepend c (readLiteral cs)

/-- Whether a line ends after some spaces. -/
def endsLine (cs : List Char) : Bool := (dropLineEnd (skipSpaces cs)).isSome

/-- Reads the rest of a string in three double quotes. Of the quotes at its end up to two more
belong to its text. A backslash at the end of a line joins the lines: with `joining` the blanks
and line ends that follow are dropped. -/
def readBasicLines : (joining : Bool) → List Char → Option (List Char × List Char)
  | _, [] => none
  | _, '"' :: '"' :: '"' :: '"' :: '"' :: cs => some (['"', '"'], cs)
  | _, '"' :: '"' :: '"' :: '"' :: cs => some (['"'], cs)
  | _, '"' :: '"' :: '"' :: cs => some ([], cs)
  | _, '\\' :: 'x' :: a :: b :: cs =>
    (hexChar? [a, b]).bind fun x => prepend x (readBasicLines false cs)
  | _, '\\' :: 'u' :: a :: b :: c :: d :: cs =>
    (hexChar? [a, b, c, d]).bind fun x => prepend x (readBasicLines false cs)
  | _, '\\' :: 'U' :: a :: b :: c :: d :: e :: f :: g :: h :: cs =>
    (hexChar? [a, b, c, d, e, f, g, h]).bind fun x => prepend x (readBasicLines false cs)
  | _, '\\' :: c :: cs =>
    match escaped? c with
    | some x => prepend x (readBasicLines false cs)
    | none => if endsLine (c :: cs) then readBasicLines true (c :: cs) else none
  | joining, '\r' :: '\n' :: cs =>
    if joining then readBasicLines true cs
    else prepend '\r' (prepend '\n' (readBasicLines false cs))
  | joining, c :: cs =>
    if joining && (c = ' ' || c = '\t' || c = '\n') then readBasicLines true cs
    else if isControl c && c ≠ '\n' then none
    else prepend c (readBasicLines false cs)

/-- Reads the rest of a string in three single quotes. Of the quotes at its end up to two more
belong to its text. -/
def readLiteralLines : List Char → Option (List Char × List Char)
  | [] => none
  | '\'' :: '\'' :: '\'' :: '\'' :: '\'' :: cs => some (['\'', '\''], cs)
  | '\'' :: '\'' :: '\'' :: '\'' :: cs => some (['\''], cs)
  | '\'' :: '\'' :: '\'' :: cs => some ([], cs)
  | '\r' :: '\n' :: cs => prepend '\r' (prepend '\n' (readLiteralLines cs))
  | c :: cs => if isControl c && c ≠ '\n' then none else prepend c (readLiteralLines cs)

/-- Reads a string, if one comes next: its text, and what follows. A line end right after three
opening quotes does not belong to the text. -/
def readString? : List Char → Option (Option (List Char × List Char))
  | '"' :: '"' :: '"' :: cs => some (readBasicLines false ((dropLineEnd cs).getD cs))
  | '"' :: cs => some (readBasic cs)
  | '\'' :: '\'' :: '\'' :: cs => some (readLiteralLines ((dropLineEnd cs).getD cs))
  | '\'' :: cs => some (readLiteral cs)
  | _ => none

/-! ## Keys -/

/-- Whether a character may stand in a key without quotes. -/
def isKeyChar (c : Char) : Bool := c.isAlphanum || c = '_' || c = '-'

/-- Reads a key without dots, in quotes or without. -/
def readSimpleKey : List Char → Option (String × List Char)
  | '"' :: cs => (readBasic cs).map fun r => (String.ofList r.1, r.2)
  | '\'' :: cs => (readLiteral cs).map fun r => (String.ofList r.1, r.2)
  | cs =>
    let key := cs.takeWhile isKeyChar
    if key.isEmpty then none else some (String.ofList key, cs.dropWhile isKeyChar)

/-- How deep keys and values may be nested. -/
def depthLimit : Nat := 80

/-- Reads the parts of a key between dots, at most `room` of them, and the blanks after it. -/
def readKeyWithin : (room : Nat) → List Char → Option (List String × List Char)
  | 0, _ => none
  | room + 1, cs => do
    let (key, cs) ← readSimpleKey (skipSpaces cs)
    match skipSpaces cs with
    | '.' :: cs =>
      let (keys, rest) ← readKeyWithin room cs
      return (key :: keys, rest)
    | rest => return ([key], rest)

/-- Reads a key and the blanks after it. -/
def readKey (cs : List Char) : Option (List String × List Char) := readKeyWithin depthLimit cs

end Toml

end Geocast
