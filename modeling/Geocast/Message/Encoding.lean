import Geocast.Json.Writer
import Geocast.Message.Payload

/-! # Payloads as JSON

Each type is written as an object with its fields in a fixed order, a variant with its tag first,
and an absent value as null. `Frame.encode` is the text that goes over the wire. -/

namespace Geocast

def Location.toJson (a : Location) : Json :=
  .ofMembers [("lat", .float a.lat), ("lon", .float a.lon)]

/-- A geofence as an object tagged with its shape. -/
def Geofence.toJson : Geofence → Json
  | .circle center radius =>
    .ofMembers [("shape", .text "circle"), ("center", center.toJson), ("radius", .float radius)]
  | .polygon vertices =>
    .ofMembers [("shape", .text "polygon"), ("vertices", .array (vertices.map Location.toJson))]
  | .undefined => .ofMembers [("shape", .text "undefined")]

def Topic.toJson (t : Topic) : Json := .text t.name

def ReasonCode.toJson (r : ReasonCode) : Json := .text r.name

def BrokerInfo.toJson (b : BrokerInfo) : Json :=
  .ofMembers [("broker_id", .text b.id), ("address", .text b.address)]

def Publication.members (p : Publication) : List (String × Json) :=
  [("topic", p.topic.toJson), ("geofence", p.geofence.toJson), ("content", .text p.content)]

def Publication.toJson (p : Publication) : Json := .ofMembers p.members

namespace Payload

/-- The tag of each kind of payload. -/
def tagOf : PayloadKind → String
  | .connect => "connect"
  | .connAck => "connack"
  | .disconnect => "disconnect"
  | .pingReq => "pingreq"
  | .pingResp => "pingresp"
  | .subscribe => "subscribe"
  | .subAck => "suback"
  | .unsubscribe => "unsubscribe"
  | .unsubAck => "unsuback"
  | .publish => "publish"
  | .pubAck => "puback"
  | .forwardPublish => "broker_forward_publish"
  | .forwardSubscribe => "broker_forward_subscribe"
  | .forwardUnsubscribe => "broker_forward_unsubscribe"
  | .forwardDisconnect => "broker_forward_disconnect"
  | .forwardPingReq => "broker_forward_pingreq"

/-- The fields of a payload as members, in their order. -/
def members : Payload → List (String × Json)
  | connect l | pingReq l => [("location", .ofOption Location.toJson l)]
  | connAck r | pingResp r | subAck r | unsubAck r | pubAck r => [("reason_code", r.toJson)]
  | disconnect r b => [("reason_code", r.toJson), ("broker_info", .ofOption BrokerInfo.toJson b)]
  | subscribe t g => [("topic", t.toJson), ("geofence", g.toJson)]
  | unsubscribe t => [("topic", t.toJson)]
  | publish p => p.members
  | forwardPublish p l =>
    [("publish", p.toJson), ("publisher_location", .ofOption Location.toJson l)]
  | forwardSubscribe c t g =>
    [("client_id", .text c), ("topic", t.toJson), ("geofence", g.toJson)]
  | forwardUnsubscribe c t => [("client_id", .text c), ("topic", t.toJson)]
  | forwardDisconnect c r => [("client_id", .text c), ("reason_code", r.toJson)]
  | forwardPingReq c l => [("client_id", .text c), ("location", .ofOption Location.toJson l)]

/-- A payload as an object tagged with its type. -/
def toJson (p : Payload) : Json := .ofMembers (("type", .text (tagOf p.kind)) :: p.members)

end Payload

namespace Frame

def toJson (f : Frame) : Json :=
  .ofMembers [("sender", .text f.sender), ("payload", f.payload.toJson)]

def encode (f : Frame) : String := f.toJson.render

end Frame

end Geocast
