import Geocast.Broker.Atlas
import Geocast.Broker.Dispatch
import Geocast.Broker.Forwarding
import Geocast.Broker.TopicIndex

/-! # Brokers

A broker of the federation serves the clients in its area. It knows the areas of all brokers, the
clients connected to it and their subscriptions; the roster and the index hold the same
subscriptions, the one by client and the other by topic. -/

namespace Geocast

structure Broker where
  roster : Roster
  index : TopicIndex
  atlas : Atlas
  policy : ForwardingPolicy

namespace Broker

def start (atlas : Atlas) (policy : ForwardingPolicy) : Broker :=
  ⟨.empty, .empty, atlas, policy⟩

def id (b : Broker) : String := b.atlas.own.broker.id

def unindex (x : TopicIndex) (subscriptions : List Subscription) : TopicIndex :=
  subscriptions.foldl (fun x s => x.erase s.id s.topic) x

def evict (b : Broker) (c : String) : Broker :=
  match b.roster.remove? c with
  | none => b
  | some (record, roster) =>
    { b with
      roster := roster
      index := unindex b.index (record.subscriptions.entries.map Prod.snd) }

/-- Sends a client to the broker that is responsible for its location and forgets it. -/
def redirect (b : Broker) (c : String) (l : Option Location) : Broker × Dispatch :=
  (b.evict c, .send c (.disconnect .wrongBroker (b.atlas.peerFor? l)))

end Broker

end Geocast
