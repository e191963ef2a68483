import Geocast.Settings.Toml.Scalar
import Geocast.Settings.Toml.Tree

/-! # Reading TOML

`Toml.parse?` reads a configuration file in TOML. The text is first read as a list of statements
(`Toml.readStatements`), headers of tables and assignments, and these then build a tree
(`Toml.build`). -/

namespace Geocast

namespace Toml

/-! ## Values -/

mutual

/-- Reads a value, with fuel for those nested in it. At most `room` arrays and inline tables may
be nested. -/
def readValue : (fuel room : Nat) → List Char → Option (Setting × List Char)
  | 0, _, _ => none
  | fuel + 1, room, cs =>
    match readString? cs with
    | some r => r.map fun (s, rest) => (.text (String.ofList s), rest)
    | none =>
      match room, cs with
      | 0, '[' :: _ => none
      | 0, '\x7b' :: _ => none
      | room + 1, '[' :: cs => (readItems fuel room cs).map fun (vs, rest) => (.list vs, rest)
      | room + 1, '\x7b' :: cs =>
        (readPairs fuel room [] cs).map fun (es, rest) => (.group (entrySettings es), rest)
      | _, cs =>
        let (token, rest) := takeScalar cs
        (readScalar? token).map fun v => (v, rest)

/-- Reads the items of an array up to its closing bracket. A comma may stand after the last. -/
def readItems : (fuel room : Nat) → List Char → Option (List Setting × List Char)
  | 0, _, _ => none
  | fuel + 1, room, cs => do
    match ← skipLines cs.length cs with
    | ']' :: rest => return ([], rest)
    | cs =>
      let (v, cs) ← readValue fuel room cs
      match ← skipLines cs.length cs with
      | ',' :: cs =>
        let (vs, rest) ← readItems fuel room cs
        return (v :: vs, rest)
      | ']' :: rest => return ([v], rest)
      | _ => none

/-- Reads the assignments of an inline table up to its closing brace. A comma may stand after the
last, and lines may end anywhere but within a key. -/
def readPairs : (fuel room : Nat) → Entries → List Char → Option (Entries × List Char)
  | 0, _, _, _ => none
  | fuel + 1, room, es, cs => do
    match ← skipLines cs.length cs with
    | '\x7d' :: rest => return (es, rest)
    | cs =>
      let (path, cs) ← readKey cs
      match ← skipLines cs.length cs with
      | '=' :: cs =>
        let (v, cs) ← readValue fuel room (← skipLines cs.length cs)
        let es ← assign v path es
        match ← skipLines cs.length cs with
        | ',' :: cs => readPairs fuel room es cs
        | '\x7d' :: rest => return (es, rest)
        | _ => none
      | _ => none

end

/-! ## Statements -/

inductive Statement
  | table (path : List String)
  | element (path : List String)
  | assignment (path : List String) (v : Setting)

/-- Reads a statement at the head of a text. -/
def readStatement : List Char → Option (Statement × List Char)
  | '[' :: '[' :: cs => do
    match ← readKey cs with
    | (path, ']' :: ']' :: rest) => return (.element path, rest)
    | _ => none
  | '[' :: cs => do
    match ← readKey cs with
    | (path, ']' :: rest) => return (.table path, rest)
    | _ => none
  | cs => do
    match ← readKey cs with
    | (path, '=' :: cs) =>
      let (v, rest) ← readValue (2 * cs.length + 1) depthLimit (skipSpaces cs)
      return (.assignment path v, rest)
    | _ => none

/-- Reads all statements, each on lines of its own. -/
def readStatements : (fuel : Nat) → List Char → Option (List Statement)
  | 0, _ => none
  | fuel + 1, cs => do
    match skipSpaces (← skipLines cs.length cs) with
    | [] => return []
    | cs =>
      let (s, rest) ← readStatement cs
      return s :: (← readStatements fuel (← endLine rest))

/-- Carries out statements: headers choose the table that assignments go to. -/
def build (current : List String) (es : Entries) : List Statement → Option Entries
  | [] => some es
  | .table path :: rest => do build path (← openTable path es) rest
  | .element path :: rest => do build path (← openElement path es) rest
  | .assignment path v :: rest => do build current (← within (assign v path) current es) rest

/-- Reads the text of a file. A mark of the byte order in front is dropped. -/
def parse? (text : String) : Option (List (String × Setting)) := do
  let cs := match text.toList with
    | '\ufeff' :: cs => cs
    | cs => cs
  return entrySettings (← build [] [] (← readStatements (cs.length + 1) cs))

end Toml

end Geocast
