import Geocast.Settings.Setting

/-! # Tables of TOML under construction

The statements of a TOML file build a tree that remembers how each table came about, because a
table may be defined only once: headers define tables, the parts of keys make others, and neither
may extend what the other closed. -/

namespace Geocast

namespace Toml

inductive Node
  | value (v : Setting)
  /-- A table. An implicit one was not defined by a header so far, a dotted one was defined by the
  parts of a key. -/
  | table (implicit dotted : Bool) (entries : List (String × Node))
  /-- Tables under one header, the newest first. -/
  | tables (elements : List (List (String × Node)))

/-- Entries of a table under construction. -/
abbrev Entries := List (String × Node)

/-- Changes the node under a name, or adds one. -/
def alter (name : String) (f : Option Node → Option Node) : Entries → Option Entries
  | [] => do return [(name, ← f none)]
  | e :: es =>
    if e.1 = name then do return (name, ← f (some e.2)) :: es
    else do return e :: (← alter name f es)

/-- Changes the table at the end of the path of a header. Tables on the way are made. -/
def within (f : Entries → Option Entries) : List String → Entries → Option Entries
  | [], es => f es
  | name :: path, es => alter name (fun node =>
      match node with
      | none => (within f path []).map (.table true false)
      | some (.table implicit dotted inner) =>
        (within f path inner).map (.table implicit dotted)
      | some (.tables (newest :: older)) =>
        (within f path newest).map fun es => .tables (es :: older)
      | some _ => none) es

/-- Opens the table that a header names. -/
def openTable (path : List String) (es : Entries) : Option Entries :=
  match path.getLast? with
  | none => none
  | some name => within (alter name fun node =>
      match node with
      | none => some (.table false false [])
      | some (.table true false inner) => some (.table false false inner)
      | some _ => none) path.dropLast es

/-- Opens another table of those that a header with two brackets names. -/
def openElement (path : List String) (es : Entries) : Option Entries :=
  match path.getLast? with
  | none => none
  | some name => within (alter name fun node =>
      match node with
      | none => some (.tables [[]])
      | some (.tables older) => some (.tables ([] :: older))
      | some _ => none) path.dropLast es

/-- Assigns a value to a dotted key, which must not have one. The parts of the key define the tables
on the way, so no header may have defined these before. Tables under a header with two brackets
may be passed through, but get no value. -/
def assign (v : Setting) : List String → Entries → Option Entries
  | [], _ => none
  | [name], es => alter name (fun node => if node.isNone then some (.value v) else none) es
  | name :: next :: path, es => alter name (fun node =>
      match node with
      | none => (assign v (next :: path) []).map (.table true true)
      | some (.table true _ inner) => (assign v (next :: path) inner).map (.table true true)
      | some (.tables (newest :: older)) =>
        if path.isEmpty then none
        else (assign v (next :: path) newest).map fun es => .tables (es :: older)
      | some _ => none) es

mutual

def Node.setting : Node → Setting
  | .value v => v
  | .table _ _ es => .group (entrySettings es)
  | .tables elements => .list (elementSettings [] elements)

def entrySettings : List (String × Node) → List (String × Setting)
  | [] => []
  | (name, node) :: es => (name, node.setting) :: entrySettings es

/-- The settings of tables given from the newest to the oldest, before those in `acc`. -/
def elementSettings (acc : List Setting) : List (List (String × Node)) → List Setting
  | [] => acc
  | es :: older => elementSettings (.group (entrySettings es) :: acc) older

end

end Toml

end Geocast
