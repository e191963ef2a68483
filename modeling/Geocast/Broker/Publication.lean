import Geocast.Ascending
import Geocast.Broker.Basic

/-! # Publications at a broker

A publication is delivered to the local subscribers that it matches in both directions: the
subscription contains the publisher, and the publication contains the subscriber. It is forwarded
to the brokers whose areas it reaches, and the publisher gets one acknowledgement for both. -/

namespace Geocast

namespace Broker

/-- The clients that a publication is delivered to: those whose subscription on its topic contains
the publisher and who are themselves in its geofence. -/
def subscribers (b : Broker) (publisher : Location) (p : Publication) : List String :=
  ascending (((b.index.matching p.topic publisher).map (·.clientId)).filter fun c =>
    (b.roster.location? c).any p.geofence.contains)

def deliveries (b : Broker) (publisher : Location) (p : Publication) : Dispatch :=
  ⟨(b.subscribers publisher p).map fun c => (c, .publish p), []⟩

/-- Whether local matching found a subscriber. -/
def matchResult (d : Dispatch) : ReasonCode :=
  if d.outgoing.isEmpty then .noMatchingSubscribers else .success

/-- A client whose location is known publishes: local deliveries if the geofence reaches the own
area, forwards to the peers it reaches unless the policy keeps the publication local, and an
acknowledgement that sums both up. -/
def publishFrom (b : Broker) (c : String) (l : Location) (p : Publication) : Dispatch :=
  let delivered := if b.atlas.reaches p.geofence then b.deliveries l p else .empty
  let found := matchResult delivered
  let forwards :=
    if b.policy ⟨c, p.topic, found⟩ then []
    else (b.atlas.peersWithin p.geofence).map fun o => (o, .forwardPublish p (some l))
  let reason :=
    if found = .noMatchingSubscribers && !forwards.isEmpty then .noMatchingSubscribersButForwarded
    else found
  delivered ++ ⟨[], forwards⟩ ++ .send c (.pubAck reason)

/-- A client whose location is not known publishes. The center of the geofence stands in for its
location: if this broker is not responsible for that, the client is redirected and the publication
forwarded to the broker that is. -/
def publishUnlocated (b : Broker) (c : String) (p : Publication) : Broker × Dispatch :=
  let l := p.geofence.centroid?
  if b.atlas.isResponsibleFor l then (b, .send c (.pubAck .notConnectedOrNoLocation))
  else
    let (b', d) := b.redirect c l
    match b.atlas.peerFor? l with
    | some o => (b', d ++ .forward o (.forwardPublish p l))
    | none => (b', d)

def publish (b : Broker) (c : String) (p : Publication) : Broker × Dispatch :=
  match b.roster.location? c with
  | some l => (b, b.publishFrom c l p)
  | none => b.publishUnlocated c p

/-- Another broker forwards a publication of one of its clients. -/
def receiveForward (b : Broker) (peer : String) (p : Publication) (publisher : Option Location) :
    Dispatch :=
  match publisher with
  | some l =>
    let delivered := b.deliveries l p
    delivered ++ .send peer (.pubAck (matchResult delivered))
  | none => .send peer (.pubAck .protocolError)

end Broker

end Geocast
