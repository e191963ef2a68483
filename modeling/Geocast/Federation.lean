import Geocast.Broker.Handle
import Geocast.Session.Basic

/-! # Federations

A federation runs several brokers and connects clients to them. A reply goes to the connection
that is registered under its addressee, and a forward is handed to the broker it names.
`Federation.wire` lets sessions use a federation as their wire. -/

namespace Geocast

structure Node where
  broker : Broker
  /-- The channel number by client id. -/
  connections : Table String Nat

/-- Brokers by address, and the payloads on their way to channels. -/
structure Federation where
  nodes : Table String Node
  opened : Nat
  /-- The payloads not received yet with the numbers of their channels, the oldest first. -/
  mail : List (Nat × Payload)
  clock : Nat
  /-- What the wall clock shows, by the number of channels opened so far. A handoff reads it for a
  new id and opens a channel next, so each reading is one of its own. -/
  calendar : Nat → Nat

/-- A client's channel to a broker of the federation. -/
structure FederationChannel where
  number : Nat
  address : String
  clientId : String

namespace Federation

/-- A federation without brokers. -/
def empty (calendar : Nat → Nat) : Federation :=
  { nodes := ∅, opened := 0, mail := [], clock := 0, calendar := calendar }

/-- Adds a broker, which is reached at the address of its own area. -/
def addBroker (f : Federation) (b : Broker) : Federation :=
  { f with nodes := f.nodes.insert b.atlas.own.broker.address ⟨b, ∅⟩ }

/-- A broker for each area, all with the standard convention. -/
def ofAreas (calendar : Nat → Nat) (areas : List BrokerArea) : Except AtlasError Federation :=
  areas.foldlM (fun f a => do
    let atlas ← Atlas.ofAreas a.broker.id areas
    return f.addBroker (.start atlas CallConvention.standard.policy)) (empty calendar)

def brokerAt? (f : Federation) (address : String) : Option Broker :=
  (f.nodes.get? address).map (·.broker)

def addressOf? (f : Federation) (brokerId : String) : Option String :=
  (f.nodes.entries.find? fun e => e.2.broker.id = brokerId).map Prod.fst

/-- The payloads of a dispatch that go to registered connections, with the channel numbers. -/
def routed (connections : Table String Nat) (outgoing : List (String × Payload)) :
    List (Nat × Payload) :=
  outgoing.filterMap fun m => (connections.get? m.1).map fun n => (n, m.2)

/-- Hands a payload to the broker at an address, and its forwards to the brokers they name, up to
`depth` brokers deep. -/
def deliverWithin : (depth : Nat) → Federation → (address sender : String) → Payload → Federation
  | 0, f, _, _, _ => f
  | depth + 1, f, address, sender, p =>
    match f.nodes.get? address with
    | none => f
    | some node =>
      let (broker, d) := node.broker.handle sender p
      let f := { f with
        nodes := f.nodes.modify address fun n => { n with broker := broker }
        mail := f.mail ++ routed node.connections d.outgoing }
      d.forwards.foldl (fun f (target, q) =>
        match f.addressOf? target.id with
        | some next => deliverWithin depth f next broker.id q
        | none => f) f

/-- Hands a payload to the broker at an address. A publication is forwarded once at most, so two
brokers deep is far enough. -/
def deliver (f : Federation) (address sender : String) (p : Payload) : Federation :=
  deliverWithin 2 f address sender p

/-- Opens a channel, which takes the place of any that is registered under the same client id. -/
def dial (address clientId : String) (f : Federation) :
    Except SessionError FederationChannel × Federation :=
  match f.nodes.get? address with
  | none => (.error (.transport ("no broker at " ++ address)), f)
  | some _ =>
    (.ok ⟨f.opened, address, clientId⟩,
      { f with
        nodes := f.nodes.modify address fun n =>
          { n with connections := n.connections.insert clientId f.opened }
        opened := f.opened + 1 })

def send (c : FederationChannel) (p : Payload) (f : Federation) :
    Except SessionError Unit × Federation :=
  (.ok (), f.deliver c.address c.clientId p)

/-- Whether a payload is on its way to a channel. -/
def isFor (c : FederationChannel) (m : Nat × Payload) : Bool := m.1 = c.number

/-- Receives the oldest payload of a channel. Without one the budget passes. -/
def recv (c : FederationChannel) (budget : Nat) (f : Federation) :
    Except SessionError (Option Payload) × Federation :=
  match f.mail.find? (isFor c) with
  | some m => (.ok (some m.2), { f with mail := f.mail.eraseP (isFor c) })
  | none => (.ok none, { f with clock := f.clock + budget })

/-- Closes a channel. If it is the registered one, its client is disconnected. -/
def close (c : FederationChannel) (f : Federation) : Federation :=
  match f.nodes.get? c.address with
  | none => f
  | some node =>
    if node.connections.get? c.clientId = some c.number then
      let f := { f with
        nodes := f.nodes.modify c.address fun n =>
          { n with connections := n.connections.erase c.clientId } }
      f.deliver c.address c.clientId (.disconnect .normalDisconnection none)
    else f

theorem pending_recv (c : FederationChannel) (budget : Nat) (f : Federation) (p : Payload)
    (h : (recv c budget f).1 = .ok (some p)) :
    (recv c budget f).2.mail.length < f.mail.length := by
  revert h
  unfold recv
  cases hf : f.mail.find? (isFor c) with
  | none => simp
  | some m =>
    have hm := List.mem_of_find?_eq_some hf
    have hl := List.length_eraseP_of_mem hm (List.find?_some hf)
    have hpos := List.length_pos_of_mem hm
    simp [hl]
    omega

def wire : Wire where
  State := Federation
  Channel := FederationChannel
  dial := dial
  send := send
  recv := recv
  close := close
  now := clock
  calendar := fun f => f.calendar f.opened
  pending := fun f => f.mail.length
  pending_recv := pending_recv

end Federation

end Geocast
