import Geocast.Json.Reader
import Geocast.Json.Record
import Geocast.Message.Encoding

/-! # Payloads from JSON

`Frame.decode?` accepts every text that `Frame.encode` writes and a good many more: members in any
order, further members, records written as arrays, integers for doubles, absent members for
absent values. A variant is read only after everything in it was found sound, nested values that
no field asks for included, whereas what a plain record skips need only be grammatical. -/

namespace Geocast

/-- How deep arrays and objects may be nested in what is read. -/
def nestingLimit : Nat := 127

def Location.ofJson? (v : Json) : Option Location := do
  match ← v.fields? ["lat", "lon"] 0 with
  | [lat, lon] => return ⟨← Json.required Json.float? lat, ← Json.required Json.float? lon⟩
  | _ => none

/-- The shapes of geofences by name. -/
def Geofence.shapes : List String := ["circle", "polygon", "undefined"]

/-- The shape that a tag names. Within a value that is held already, a shape may also be given by
its place in the list. -/
def Geofence.shape? (byPlace : Bool) : Json → Option String
  | .string s => s
  | v => if byPlace then v.nat?.bind (Geofence.shapes[·]?) else none

/-- Reads a geofence out of a sound value. -/
def Geofence.ofSound? (byPlace : Bool) (v : Json) : Option Geofence := do
  let (tag, body) ← v.variant? "shape"
  let shape ← Geofence.shape? byPlace tag
  if shape = "circle" then
    match ← body.fields? ["center", "radius"] 0 with
    | [center, radius] =>
      return .circle (← Json.required Location.ofJson? center) (← Json.required Json.float? radius)
    | _ => none
  else if shape = "polygon" then
    match ← body.fields? ["vertices"] 0 with
    | [vertices] =>
      let vs ← Json.required Json.array? vertices
      return .polygon (← vs.mapM Location.ofJson?)
    | _ => none
  else if shape = "undefined" then
    match body with
    | .array (_ :: _) => none
    | _ => return .undefined
  else none

/-- Reads a geofence that lies in `outer` arrays and objects. -/
def Geofence.ofJson? (outer : Nat) (v : Json) : Option Geofence :=
  if v.isSound (nestingLimit - outer) then Geofence.ofSound? false v else none

def Topic.ofJson? (v : Json) : Option Topic := v.string?.map Topic.mk

def ReasonCode.ofJson? (v : Json) : Option ReasonCode :=
  (v.name? Json.isNullOrEmpty).bind ReasonCode.ofName?

def BrokerInfo.ofJson? (v : Json) : Option BrokerInfo := do
  match ← v.fields? ["broker_id", "address"] 0 with
  | [id, address] =>
    return ⟨← Json.required Json.string? id, ← Json.required Json.string? address⟩
  | _ => none

/-- Reads a publication out of a sound value. -/
def Publication.ofSound? (v : Json) : Option Publication := do
  match ← v.fields? ["topic", "geofence", "content"] 0 with
  | [topic, geofence, content] =>
    return ⟨← Json.required Topic.ofJson? topic,
      ← Json.required (Geofence.ofSound? true) geofence, ← Json.required Json.string? content⟩
  | _ => none

namespace Payload

/-- The kind of payload that a tag names. -/
def kindOf? (tag : String) : Option PayloadKind := PayloadKind.all.find? fun k => tagOf k = tag

/-- Reads the location of a payload that has nothing else. -/
def readLocation? (body : Json) : Option (Option Location) := do
  match ← body.fields? ["location"] 0 with
  | [l] => Json.nullable Location.ofJson? l
  | _ => none

/-- Reads the reason code of a payload that has nothing else. -/
def readReason? (body : Json) : Option ReasonCode := do
  match ← body.fields? ["reason_code"] 0 with
  | [r] => Json.required ReasonCode.ofJson? r
  | _ => none

/-- Reads the fields of a payload of a given kind out of a sound value. -/
def ofBody? (body : Json) : PayloadKind → Option Payload
  | .connect => connect <$> readLocation? body
  | .connAck => connAck <$> readReason? body
  | .disconnect => do
    match ← body.fields? ["reason_code", "broker_info"] 0 with
    | [r, b] =>
      return disconnect (← Json.required ReasonCode.ofJson? r)
        (← Json.nullable BrokerInfo.ofJson? b)
    | _ => none
  | .pingReq => pingReq <$> readLocation? body
  | .pingResp => pingResp <$> readReason? body
  | .subscribe => do
    match ← body.fields? ["topic", "geofence"] 0 with
    | [t, g] =>
      return subscribe (← Json.required Topic.ofJson? t)
        (← Json.required (Geofence.ofSound? true) g)
    | _ => none
  | .subAck => subAck <$> readReason? body
  | .unsubscribe => do
    match ← body.fields? ["topic"] 0 with
    | [t] => return unsubscribe (← Json.required Topic.ofJson? t)
    | _ => none
  | .unsubAck => unsubAck <$> readReason? body
  | .publish => publish <$> Publication.ofSound? body
  | .pubAck => pubAck <$> readReason? body
  | .forwardPublish => do
    match ← body.fields? ["publish", "publisher_location"] 0 with
    | [p, l] =>
      return forwardPublish (← Json.required Publication.ofSound? p)
        (← Json.nullable Location.ofJson? l)
    | _ => none
  | .forwardSubscribe => do
    match ← body.fields? ["client_id", "topic", "geofence"] 0 with
    | [c, t, g] =>
      return forwardSubscribe (← Json.required Json.string? c) (← Json.required Topic.ofJson? t)
        (← Json.required (Geofence.ofSound? true) g)
    | _ => none
  | .forwardUnsubscribe => do
    match ← body.fields? ["client_id", "topic"] 0 with
    | [c, t] =>
      return forwardUnsubscribe (← Json.required Json.string? c) (← Json.required Topic.ofJson? t)
    | _ => none
  | .forwardDisconnect => do
    match ← body.fields? ["client_id", "reason_code"] 0 with
    | [c, r] =>
      return forwardDisconnect (← Json.required Json.string? c)
        (← Json.required ReasonCode.ofJson? r)
    | _ => none
  | .forwardPingReq => do
    match ← body.fields? ["client_id", "location"] 0 with
    | [c, l] =>
      return forwardPingReq (← Json.required Json.string? c) (← Json.nullable Location.ofJson? l)
    | _ => none

/-- Reads a payload out of a sound value. -/
def ofSound? (v : Json) : Option Payload := do
  let (tag, body) ← v.variant? "type"
  ofBody? body (← kindOf? (← tag.string?))

/-- Reads a payload that lies in `outer` arrays and objects. -/
def ofJson? (outer : Nat) (v : Json) : Option Payload :=
  if v.isSound (nestingLimit - outer) then ofSound? v else none

end Payload

namespace Frame

def ofJson? (v : Json) : Option Frame := do
  match ← v.fields? ["sender", "payload"] 0 with
  | [sender, payload] =>
    return ⟨← Json.required Json.string? sender, ← Json.required (Payload.ofJson? 1) payload⟩
  | _ => none

def decode? (text : String) : Option Frame := do ofJson? (← Json.parse text)

end Frame

end Geocast
