import Geocast.Message.Decoding

/-! # The map of areas

Every broker of a federation knows the areas of all brokers. An `Atlas` is one broker's view of
them: its own area and those of its peers. It answers which broker is responsible for a location
and which brokers a geofence reaches. -/

namespace Geocast

/-- The area that a broker serves. -/
structure BrokerArea where
  broker : BrokerInfo
  area : Geofence
  /-- The root broker serves every location that no other area covers. -/
  root : Bool
deriving BEq

namespace BrokerArea

def toJson (a : BrokerArea) : Json :=
  .ofMembers [("broker", a.broker.toJson), ("area", a.area.toJson), ("root", .bool a.root)]

/-- Reads an area that lies in `outer` arrays and objects. It is no root unless it says so. -/
def ofJson? (outer : Nat) (v : Json) : Option BrokerArea := do
  match ← v.fields? ["broker", "area", "root"] 1 with
  | [broker, area, root] =>
    let root ← match root with
      | some r => r.bool?
      | none => some false
    return ⟨← Json.required BrokerInfo.ofJson? broker,
      ← Json.required (Geofence.ofJson? (outer + 1)) area, root⟩
  | _ => none

/-- Whether a regular broker, no root, covers a location. -/
def covers (a : BrokerArea) (p : Location) : Bool := !a.root && a.area.contains p

end BrokerArea

/-- Why the areas of a federation were refused. -/
inductive AtlasError
  | unreadable (path cause : String)
  | malformed
  | unknownBroker (id : String)
  | multipleRoots
deriving DecidableEq, Repr

/-- The text of an error. A malformed file is described by its reader and has no text here. -/
def AtlasError.message : AtlasError → String
  | unreadable path cause => "could not read broker area file " ++ path ++ ": " ++ cause
  | malformed => "could not parse broker areas"
  | unknownBroker id => "broker " ++ id ++ " has no area in the registry"
  | multipleRoots => "more than one root broker configured"

/-- The areas as one broker sees them. -/
structure Atlas where
  own : BrokerArea
  others : List BrokerArea

namespace Atlas

/-- Splits a list of areas into that of the broker `id` and those of its peers. Of several areas
under its own id the broker serves the first. -/
def ofAreas (id : String) (areas : List BrokerArea) : Except AtlasError Atlas :=
  if 1 < (areas.filter (·.root)).length then .error .multipleRoots
  else match areas.find? fun a => a.broker.id = id with
    | none => .error (.unknownBroker id)
    | some own => .ok ⟨own, areas.filter fun a => a.broker.id ≠ id⟩

def standalone (own : BrokerArea) : Atlas := ⟨own, []⟩

/-- Reads the text of an array of areas. -/
def readAreas? (text : String) : Option (List BrokerArea) := do
  (← (← Json.parse text).array?).mapM (BrokerArea.ofJson? 1)

/-- What a missing file is reported as. -/
def missingFile : String := "No such file or directory (os error 2)"

/-- The atlas of the broker `id` out of a file, whose content is `none` when there is no such
file. -/
def ofFile (id path : String) (content : Option String) : Except AtlasError Atlas :=
  match content with
  | none => .error (.unreadable path missingFile)
  | some text =>
    match readAreas? text with
    | none => .error .malformed
    | some areas => ofAreas id areas

/-- Whether this broker must serve a client at a location. A missing location lies in no area, so
only the root is responsible for it. -/
def isResponsibleFor (a : Atlas) (l : Option Location) : Bool :=
  if a.own.root then !a.others.any fun o => l.any o.covers else l.any a.own.area.contains

/-- The peer responsible for a location: a regular broker that covers it, otherwise the root. -/
def peerFor? (a : Atlas) (l : Option Location) : Option BrokerInfo :=
  ((l.bind fun p => a.others.find? (·.covers p)).or (a.others.find? (·.root))).map (·.broker)

/-- Whether publications within a geofence may have subscribers at this broker. -/
def reaches (a : Atlas) (g : Geofence) : Bool := a.own.area.intersects g

/-- The peers whose areas a geofence reaches, the root included. -/
def peersWithin (a : Atlas) (g : Geofence) : List BrokerInfo :=
  (a.others.filter (·.area.intersects g)).map (·.broker)

end Atlas

end Geocast
