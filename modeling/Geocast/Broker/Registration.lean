import Geocast.Broker.Basic

/-! # Clients and their subscriptions at a broker

How a broker answers the requests that concern a client itself: registering, reporting a location,
subscribing and unsubscribing. -/

namespace Geocast

namespace Broker

/-- A client asks to be registered. An id that is in use is refused, and the client that used it
is forgotten as well. -/
def connect (b : Broker) (c : String) (l : Option Location) : Broker × Dispatch :=
  if b.atlas.isResponsibleFor l then
    match b.roster.add? c l with
    | some roster => ({ b with roster := roster }, .send c (.connAck .success))
    | none => (b.evict c, .send c (.disconnect .protocolError none))
  else b.redirect c l

def ping (b : Broker) (c : String) (l : Option Location) : Broker × Dispatch :=
  if b.atlas.isResponsibleFor l then
    match b.roster.relocate? c l with
    | some roster => ({ b with roster := roster }, .send c (.pingResp .locationUpdated))
    | none => (b, .send c (.pingResp .notConnectedOrNoLocation))
  else b.redirect c l

/-- A client subscribes to a topic, which replaces a subscription it had there. -/
def subscribe (b : Broker) (c : String) (t : Topic) (g : Geofence) : Broker × Dispatch :=
  match b.roster.subscribe? c t g with
  | some (s, roster) =>
    let index := match b.roster.subscription? c t with
      | some old => b.index.erase old.id t
      | none => b.index
    ({ b with roster := roster, index := index.insert s.id t g },
      .send c (.subAck .grantedQoS0))
  | none => (b, .send c (.subAck .notConnectedOrNoLocation))

/-- A client gives up its subscription to a topic. -/
def unsubscribe (b : Broker) (c : String) (t : Topic) : Broker × Dispatch :=
  match b.roster.unsubscribe? c t with
  | some (s, roster) =>
    ({ b with roster := roster, index := b.index.erase s.id t },
      .send c (.unsubAck .success))
  | none => (b, .send c (.unsubAck .noSubscriptionExisted))

end Broker

end Geocast
