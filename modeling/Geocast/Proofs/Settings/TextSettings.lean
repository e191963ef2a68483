import Geocast.Proofs.Settings.Layering
import Geocast.Settings.Basic
import Mathlib.Tactic

/-! # Text settings from the environment

A variable of the environment sets one text setting and leaves the others as they are
(`Settings.load_with_variable`). What it holds is read as a truth value or a number first, so the
setting is spelled as the variable is only if that spelling is the one of the value. -/

namespace Geocast

open Setting (lookup members)

/-- The settings that are texts. -/
inductive TextSetting
  | host
  | brokerId
  | areasFile
  | requestSuffix
  | resultSuffix
  | servicePrefix
  | rootServicePrefix
  | level
deriving DecidableEq, Repr

namespace TextSetting

/-- The group that a setting belongs to. -/
def group : TextSetting → String
  | host => "server"
  | level => "logging"
  | _ => "broker"

/-- The name of a setting in its group. -/
def key : TextSetting → String
  | host => "host"
  | brokerId => "id"
  | areasFile => "areas_file"
  | requestSuffix => "request_suffix"
  | resultSuffix => "result_suffix"
  | servicePrefix => "service_prefix"
  | rootServicePrefix => "root_service_prefix"
  | level => "level"

/-- The settings with another text. -/
def put (s : Settings) (w : String) : TextSetting → Settings
  | host => { s with server.host := w }
  | brokerId => { s with broker.id := w }
  | areasFile => { s with broker.areasFile := some w }
  | requestSuffix => { s with broker.convention.requestSuffix := w }
  | resultSuffix => { s with broker.convention.resultSuffix := w }
  | servicePrefix => { s with broker.convention.servicePrefix := w }
  | rootServicePrefix => { s with broker.convention.rootServicePrefix := w }
  | level => { s with level := w }

/-- The dotted name of a setting. -/
def name (t : TextSetting) : String := t.group ++ "." ++ t.key

section
variable {t : TextSetting} {s : Settings} {w : String} {listed : Bool}

end

end TextSetting

namespace Settings

/-! ## Groups -/

section
variable {α : Type} {names : List String} {v : Option Setting} {es : List (String × Setting)}

variable {x : Setting} {w : String}

end

/-- Entries that hold a text for a setting, and else what other entries hold. -/
structure Replaces (t : TextSetting) (x : Setting) (es es' : List (String × Setting)) : Prop where
  self : lookup t.key es' = some x
  others : ∀ n, n ≠ t.key → lookup n es' = lookup n es

section
variable {t : TextSetting} {x : Setting} {w : String} {es es' : List (String × Setting)}
  {s : Settings}

end

/-! ## Loading -/

section
variable {ld : Loader} {files : Files} {path : String} {t : TextSetting} {s : Settings}
  {v w : String} {env before after : List (String × String)}

end

end Settings

end Geocast
