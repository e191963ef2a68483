import Geocast.Broker.Forwarding
import Geocast.Session.Basic
import Geocast.Settings.Files
import Geocast.Settings.Toml

/-! # Configuration

Brokers and clients are configured by a file and by the environment. What neither sets keeps its
default, and the environment wins over the file. -/

namespace Geocast

/-- The address that a broker listens on. -/
structure ServerSettings where
  host : String
  portNumber : Nat
deriving DecidableEq, Repr

/-- Who a broker is and how it recognises function calls. -/
structure BrokerSettings where
  id : String
  /-- The file with the areas of all brokers. Without one the broker runs alone. -/
  areasFile : Option String
  convention : CallConvention
deriving DecidableEq, Repr

/-- Everything that can be configured. -/
structure Settings where
  server : ServerSettings
  broker : BrokerSettings
  client : SessionOptions
  level : String
deriving DecidableEq, Repr

/-- Why a configuration was refused. -/
inductive SettingsError
  /-- The file is not in the format that its name promises. -/
  | malformedFile
  /-- A value cannot be converted to what the setting needs. -/
  | unsuitableValue
deriving DecidableEq, Repr

namespace Settings

/-- The settings of a program that is not configured. -/
def standard : Settings :=
  { server := ⟨"127.0.0.1", 8080⟩
    broker := ⟨"broker", none, .standard⟩
    client := ⟨5000, 5000, 10000, 8⟩
    level := "info" }

/-! ## Values of settings -/

/-- The values of a group in the order of `names`, absent ones included. A list stands for the
group when it is long enough. -/
def fields? (names : List String) : Option Setting → Option (List (Option Setting))
  | none => some (names.map fun _ => none)
  | some .absent => some (names.map fun _ => none)
  | some (.group es) => some (names.map fun name => Setting.lookup name es)
  | some (.list vs) =>
    if names.length ≤ vs.length then some ((vs.take names.length).map some) else none
  | some _ => none

/-- Converts a value, unless it is absent. -/
def convert? {α : Type} (f : Setting → Option α) : Option Setting → Option (Option α)
  | none => some none
  | some .absent => some none
  | some v => (f v).map some

/-- A text setting with its default. -/
def textOr (fallback : String) (v : Option Setting) : Option String :=
  (convert? Setting.text? v).map (·.getD fallback)

/-- A numeric setting below `bound` with its default. -/
def natOr (bound fallback : Nat) (v : Option Setting) : Option Nat :=
  (convert? (Setting.nat? bound) v).map (·.getD fallback)

def server? (v : Option Setting) : Option ServerSettings := do
  match ← fields? ["host", "port"] v with
  | [host, port] =>
    return ⟨← textOr standard.server.host host, ← natOr 65536 standard.server.portNumber port⟩
  | _ => none

/-- The names of the settings of a broker. -/
def brokerNames : List String :=
  ["id", "areas_file", "request_suffix", "result_suffix", "service_prefix",
    "root_service_prefix"]

def broker? (v : Option Setting) : Option BrokerSettings := do
  match ← fields? brokerNames v with
  | [id, areas, request, result, service, rootService] =>
    let c := CallConvention.standard
    return {
      id := ← textOr standard.broker.id id
      areasFile := (← convert? Setting.text? areas).or standard.broker.areasFile
      convention := {
        requestSuffix := ← textOr c.requestSuffix request
        resultSuffix := ← textOr c.resultSuffix result
        servicePrefix := ← textOr c.servicePrefix service
        rootServicePrefix := ← textOr c.rootServicePrefix rootService } }
  | _ => none

def client? (v : Option Setting) : Option SessionOptions := do
  match ← fields? ["connect_timeout_ms", "ack_timeout_ms", "result_timeout_ms",
      "max_handoff_hops"] v with
  | [connect, ack, result, hops] =>
    let o := standard.client
    return ⟨← natOr wordBound o.connectTimeout connect, ← natOr wordBound o.ackTimeout ack,
      ← natOr wordBound o.resultTimeout result, ← natOr wordBound o.maxHandoffHops hops⟩
  | _ => none

def level? (v : Option Setting) : Option String := do
  match ← fields? ["level"] v with
  | [level] => textOr standard.level level
  | _ => none

/-- The settings that a tree of values gives. -/
def ofSetting? (v : Setting) : Option Settings := do
  let group (name : String) : Option Setting := Setting.lookup name v.entries
  return { server := ← server? (group "server"), broker := ← broker? (group "broker"),
           client := ← client? (group "client"), level := ← level? (group "logging") }

/-! ## Sources -/

/-- A format of configuration files. -/
structure Format where
  /-- The extensions of its files, in the order in which they are tried. -/
  extensions : List String
  /-- The entries of a file in the order in which they are laid on, unless the file is malformed. -/
  parse? : String → Option (List (String × Setting))

namespace Format

def toml : Format := ⟨["toml"], Toml.parse?⟩

/-- The entries of a JSON file, which is an object. -/
def parseJson? (text : String) : Option (List (String × Setting)) := do
  let v ← Json.parse text
  if v.isSound 127 then
    match ← Setting.ofJson? v with
    | .group es => some es
    | _ => none
  else none

def json : Format := ⟨["json"], parseJson?⟩

end Format

/-- What a configuration depends on besides its sources. Which formats are known and in which order
the values of the environment come is not laid down here. -/
structure Loader where
  /-- The formats that are known, in the order in which a file without extension is looked for. -/
  formats : List Format
  /-- The values of the environment are laid on in the order of the ranks of their names. -/
  rank : String → Nat

namespace Loader

/-- A loader that knows two formats. -/
def plain : Loader := ⟨[.toml, .json], fun _ => 0⟩

def formatOf? (ld : Loader) (path : Path) : Option Format :=
  ld.formats.find? fun f => f.extensions.any fun extension => path.extension? = some extension

/-- The configuration file for a path, if there is one: the file of that very name, when its
extension is that of a format, or else the first that an extension leads to. -/
def findFile? (ld : Loader) (files : Files) (path : Path) : Option (Format × String) :=
  match files.read? path with
  | some text => (ld.formatOf? path).map fun f => (f, text)
  | none => ld.formats.findSome? fun f => f.extensions.findSome? fun extension => do
      return (f, ← files.read? (← path.extend? extension))

end Loader

/-- Where the configuration is looked for unless another path is given. -/
def standardPath : String := "config/default"

/-- A text without the mark of the byte order that may stand in front. -/
def unmarked (text : String) : String :=
  match text.toList with
  | '\ufeff' :: cs => String.ofList cs
  | _ => text

/-- The configuration out of a file and the environment. That there is no file is no error. -/
def load (ld : Loader) (files : Files) (path : String) (env : List (String × String)) :
    Except SettingsError Settings := do
  let source ← match (Path.ofText? path).bind (ld.findFile? files) with
    | none => .ok []
    | some (format, text) =>
      match format.parse? (unmarked text) with
      | some es => .ok es
      | none => .error .malformedFile
  let tree := Setting.overlaySource (Setting.overlaySource (.group []) source)
    (Setting.arrange ld.rank (Setting.valuesOf env))
  match ofSetting? tree with
  | some s => return s
  | none => throw .unsuitableValue

end Settings

end Geocast
