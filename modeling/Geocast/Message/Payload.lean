import Geocast.Geofence.Basic
import Geocast.Message.Topic
import Geocast.Message.Reason

/-! # Payloads

The messages that clients and brokers exchange. A `Frame` is a payload with the name of its
sender. -/

namespace Geocast

/-- The name of a broker and the network address that it listens on. -/
structure BrokerInfo where
  id : String
  address : String
deriving DecidableEq, Repr

/-- Content published to a topic for the subscribers within a geofence. -/
structure Publication where
  topic : Topic
  geofence : Geofence
  content : String
deriving BEq

/-- A message between a client and a broker, or between two brokers. -/
inductive Payload
  | connect (location : Option Location)
  | connAck (reason : ReasonCode)
  | disconnect (reason : ReasonCode) (broker : Option BrokerInfo)
  | pingReq (location : Option Location)
  | pingResp (reason : ReasonCode)
  | subscribe (topic : Topic) (geofence : Geofence)
  | subAck (reason : ReasonCode)
  | unsubscribe (topic : Topic)
  | unsubAck (reason : ReasonCode)
  | publish (publication : Publication)
  | pubAck (reason : ReasonCode)
  | forwardPublish (publication : Publication) (publisher : Option Location)
  | forwardSubscribe (clientId : String) (topic : Topic) (geofence : Geofence)
  | forwardUnsubscribe (clientId : String) (topic : Topic)
  | forwardDisconnect (clientId : String) (reason : ReasonCode)
  | forwardPingReq (clientId : String) (location : Option Location)
deriving BEq

/-- The form of a payload without its fields, by which a waiting client tells replies apart. -/
inductive PayloadKind
  | connect
  | connAck
  | disconnect
  | pingReq
  | pingResp
  | subscribe
  | subAck
  | unsubscribe
  | unsubAck
  | publish
  | pubAck
  | forwardPublish
  | forwardSubscribe
  | forwardUnsubscribe
  | forwardDisconnect
  | forwardPingReq
deriving DecidableEq, Repr

namespace PayloadKind

def all : List PayloadKind :=
  [connect, connAck, disconnect, pingReq, pingResp, subscribe, subAck, unsubscribe, unsubAck,
    publish, pubAck, forwardPublish, forwardSubscribe, forwardUnsubscribe, forwardDisconnect,
    forwardPingReq]

def name : PayloadKind → String
  | connect => "Connect"
  | connAck => "ConnAck"
  | disconnect => "Disconnect"
  | pingReq => "PingReq"
  | pingResp => "PingResp"
  | subscribe => "Subscribe"
  | subAck => "SubAck"
  | unsubscribe => "Unsubscribe"
  | unsubAck => "UnsubAck"
  | publish => "Publish"
  | pubAck => "PubAck"
  | forwardPublish => "BrokerForwardPublish"
  | forwardSubscribe => "BrokerForwardSubscribe"
  | forwardUnsubscribe => "BrokerForwardUnsubscribe"
  | forwardDisconnect => "BrokerForwardDisconnect"
  | forwardPingReq => "BrokerForwardPingreq"

def ofName? (s : String) : Option PayloadKind := all.find? fun k => k.name = s

end PayloadKind

namespace Payload

def kind : Payload → PayloadKind
  | connect .. => .connect
  | connAck .. => .connAck
  | disconnect .. => .disconnect
  | pingReq .. => .pingReq
  | pingResp .. => .pingResp
  | subscribe .. => .subscribe
  | subAck .. => .subAck
  | unsubscribe .. => .unsubscribe
  | unsubAck .. => .unsubAck
  | publish .. => .publish
  | pubAck .. => .pubAck
  | forwardPublish .. => .forwardPublish
  | forwardSubscribe .. => .forwardSubscribe
  | forwardUnsubscribe .. => .forwardUnsubscribe
  | forwardDisconnect .. => .forwardDisconnect
  | forwardPingReq .. => .forwardPingReq

/-- The reason code of an acknowledgement or a disconnect. -/
def reason? : Payload → Option ReasonCode
  | connAck r | disconnect r _ | pingResp r | subAck r | unsubAck r | pubAck r => some r
  | _ => none

/-- The publication that a payload carries to a subscriber. -/
def publication? : Payload → Option Publication
  | publish p => some p
  | _ => none

end Payload

/-- A payload and the name of the peer that sent it. -/
structure Frame where
  sender : String
  payload : Payload
deriving BEq

end Geocast
