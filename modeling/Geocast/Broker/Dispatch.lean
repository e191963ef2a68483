import Geocast.Message.Payload

/-! # Dispatches

What a broker wants sent after it processed a payload: messages to the peers connected to it, and
messages to the other brokers of the federation, each in the order of sending. -/

namespace Geocast

/-- The messages that one payload gives rise to, in the order of sending. -/
structure Dispatch where
  /-- To the peers connected here: clients, or a broker that forwarded a publication. -/
  outgoing : List (String × Payload)
  /-- To the other brokers of the federation. -/
  forwards : List (BrokerInfo × Payload)

namespace Dispatch

def empty : Dispatch := ⟨[], []⟩

def send (peer : String) (p : Payload) : Dispatch := ⟨[(peer, p)], []⟩

def forward (target : BrokerInfo) (p : Payload) : Dispatch := ⟨[], [(target, p)]⟩

instance : Append Dispatch := ⟨fun d e => ⟨d.outgoing ++ e.outgoing, d.forwards ++ e.forwards⟩⟩

def sentTo (d : Dispatch) (peer : String) : List Payload :=
  (d.outgoing.filter fun m => m.1 = peer).map Prod.snd

def isEmpty (d : Dispatch) : Bool := d.outgoing.isEmpty && d.forwards.isEmpty

end Dispatch

end Geocast
