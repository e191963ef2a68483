import Geocast.Json.Basic

/-! # Writing JSON

`Json.render` writes a value without blanks. Strings escape quotes, backslashes and control
characters, and keep all other characters as they are. -/

namespace Geocast

namespace Json

/-- A character inside a string. Control characters without a letter of their own are written
with four hexadecimal digits. -/
def escape (c : Char) : List Char :=
  if c = '"' then ['\\', '"']
  else if c = '\\' then ['\\', '\\']
  else if c = '\x08' then ['\\', 'b']
  else if c = '\x0c' then ['\\', 'f']
  else if c = '\n' then ['\\', 'n']
  else if c = '\r' then ['\\', 'r']
  else if c = '\t' then ['\\', 't']
  else if c.toNat < 0x20 then
    ['\\', 'u', '0', '0', Nat.digitChar (c.toNat / 16), Nat.digitChar (c.toNat % 16)]
  else [c]

def quoted (s : String) : List Char := '"' :: (s.toList.flatMap escape ++ ['"'])

/-- A string that may lack a text, which is written as the replacement character. -/
def stringChars (s : Option String) : List Char := quoted (s.getD "\ufffd")

mutual

def chars : Json → List Char
  | .null => ['n', 'u', 'l', 'l']
  | .bool true => ['t', 'r', 'u', 'e']
  | .bool false => ['f', 'a', 'l', 's', 'e']
  | .number n => n.chars
  | .string s => stringChars s
  | .array vs => '[' :: itemChars vs
  | .object ms => '\x7b' :: memberChars ms

/-- The elements of an array separated by commas, with the closing bracket. -/
def itemChars : List Json → List Char
  | [] => [']']
  | v :: vs => v.chars ++ moreItemChars vs

/-- The elements after the first, each after a comma, with the closing bracket. -/
def moreItemChars : List Json → List Char
  | [] => [']']
  | v :: vs => ',' :: (v.chars ++ moreItemChars vs)

/-- The members of an object separated by commas, with the closing brace. -/
def memberChars : List (Option String × Json) → List Char
  | [] => ['\x7d']
  | (name, v) :: ms => stringChars name ++ ':' :: (v.chars ++ moreMemberChars ms)

/-- The members after the first, each after a comma, with the closing brace. -/
def moreMemberChars : List (Option String × Json) → List Char
  | [] => ['\x7d']
  | (name, v) :: ms => ',' :: (stringChars name ++ ':' :: (v.chars ++ moreMemberChars ms))

end

def render (v : Json) : String := String.ofList v.chars

end Json

end Geocast
