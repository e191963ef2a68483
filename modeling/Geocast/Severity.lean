/-! # Severity of log messages

The level of detail of the log is configured by name. -/

namespace Geocast

/-- The least severe messages that are still logged. -/
inductive Severity
  | error
  | warn
  | info
  | debug
  | trace
deriving DecidableEq, Repr

namespace Severity

def name : Severity → String
  | error => "ERROR"
  | warn => "WARN"
  | info => "INFO"
  | debug => "DEBUG"
  | trace => "TRACE"

/-- The characters that stand for white space in any script. -/
def isWhite (c : Char) : Bool :=
  let n := c.toNat
  (9 ≤ n && n ≤ 13) || n = 0x20 || n = 0x85 || n = 0xA0 || n = 0x1680
    || (0x2000 ≤ n && n ≤ 0x200A) || n = 0x2028 || n = 0x2029 || n = 0x202F || n = 0x205F
    || n = 0x3000

/-- Drops white space at both ends. -/
def trim (cs : List Char) : List Char :=
  ((cs.dropWhile isWhite).reverse.dropWhile isWhite).reverse

/-- The severity with a given name. White space around the name and the case of its letters do
not matter, and any unknown name means `info`. -/
def ofName (s : String) : Severity :=
  match String.ofList ((trim s.toList).map Char.toLower) with
  | "error" => error
  | "warn" => warn
  | "warning" => warn
  | "debug" => debug
  | "trace" => trace
  | _ => info

end Severity

end Geocast
