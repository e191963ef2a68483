import Geocast.Session.Inbox
import Geocast.Session.Wire
import Geocast.Table

/-! # Sessions

A session is the client's side of its registration with a broker. It keeps the open channel, the
tracked subscriptions, the inbox and the brokers visited by handoffs. Operations are actions on
the session that may fail; what an action did before it failed stays done. This module holds the
actions on the channel: opening, sending, receiving and closing. -/

namespace Geocast

/-- How long a client waits and how far it follows redirects. Times are in milliseconds. -/
structure SessionOptions where
  connectTimeout : Nat
  ackTimeout : Nat
  resultTimeout : Nat
  /-- The redirects followed in a row before giving up. -/
  maxHandoffHops : Nat
deriving DecidableEq, Repr

/-- An open channel with its number and the address it leads to. -/
structure Link (W : Wire) where
  channel : W.Channel
  number : Nat
  address : String

/-- The client's side of a session, and the wire it uses. -/
structure Session (W : Wire) where
  id : String
  /-- The open channel, if there is one. -/
  link : Option (Link W)
  /-- The address of the broker that was called last. -/
  address : String
  location : Option Location
  /-- The subscriptions that the current broker granted. -/
  subscriptions : Table Topic Geofence
  inbox : Inbox
  /-- The addresses that the handoffs under the current id came through. -/
  visited : List String
  options : SessionOptions
  /-- What was done on the wire, the newest first. -/
  history : List WireEvent
  wire : W.State

abbrev Action (W : Wire) (α : Type) := ExceptT SessionError (StateM (Session W)) α

namespace Session

variable {W : Wire} {α : Type}

def start (id : String) (location : Option Location) (options : SessionOptions)
    (wire : W.State) : Session W :=
  { id := id, link := none, address := "", location := location, subscriptions := ∅,
    inbox := .empty, visited := [], options := options, history := [], wire := wire }

def ofOutcome : Except SessionError α → Action W α
  | .ok a => return a
  | .error e => throw e

def isConnected (s : Session W) : Bool := s.link.isSome

def opened (s : Session W) : Nat := (s.history.filter WireEvent.isOpened).length

/-- Opens a channel to an address under the current id. -/
def dial (address : String) : Action W (Link W) := do
  let s ← get
  match W.dial address s.id s.wire with
  | (.error e, w) =>
    set { s with wire := w, history := .refused address s.id :: s.history }
    throw e
  | (.ok c, w) =>
    set { s with wire := w, history := .opened s.opened address s.id :: s.history }
    return ⟨c, s.opened, address⟩

def send (p : Payload) : Action W Unit := do
  let s ← get
  match s.link with
  | none => throw .channelClosed
  | some l =>
    let (result, w) := W.send l.channel p s.wire
    set { s with wire := w, history := .sent l.number l.address p :: s.history }
    ofOutcome result

def hangUp (l : Link W) : Action W Unit :=
  modify fun s =>
    { s with
      wire := W.close l.channel s.wire
      history := .closed l.number l.address :: s.history }

/-- Closes the open channel, if there is one, and forgets what it delivered. -/
def closeChannel : Action W Unit := do
  match (← get).link with
  | some l => hangUp l
  | none => pure ()
  modify fun s => { s with link := none, inbox := .empty }

/-! ## Receiving -/

/-- What is done with a payload that arrives. -/
inductive Verdict (α : Type)
  | accept (a : α)
  | park
  | drop

/-- Receives on a channel until a payload is accepted or the deadline passes, and parks or drops
what arrives before. -/
def receiveUntil (judge : Payload → Verdict α) (deadline : Nat) (l : Link W) (s : Session W) :
    Except SessionError (Option α) × Session W :=
  let budget := deadline - W.now s.wire
  if budget = 0 then (.ok none, s)
  else
    match _h : W.recv l.channel budget s.wire with
    | (.error e, w) => (.error e, { s with wire := w })
    | (.ok none, w) => (.ok none, { s with wire := w })
    | (.ok (some p), w) =>
      let s' := { s with wire := w, history := .received l.number p :: s.history }
      match judge p with
      | .accept a => (.ok (some a), s')
      | .park => receiveUntil judge deadline l { s' with inbox := s'.inbox.park p }
      | .drop => receiveUntil judge deadline l s'
termination_by W.pending s.wire
decreasing_by all_goals
  have := W.pending_recv l.channel (deadline - W.now s.wire) s.wire p (by rw [_h])
  rw [_h] at this
  exact this

def receive (judge : Payload → Verdict α) (budget : Nat) : Action W (Option α) := do
  let s ← get
  match s.link with
  | none => throw .channelClosed
  | some l =>
    let (result, s') := receiveUntil judge (W.now s.wire + budget) l s
    set s'
    ofOutcome result

/-- Accepts payloads of the expected kinds and parks all others. -/
def expecting (expected : List PayloadKind) (p : Payload) : Verdict Payload :=
  if p.kind ∈ expected then .accept p else .park

/-- The next payload of an expected kind: a parked one first, otherwise what arrives within
`budget`. -/
def next? (expected : List PayloadKind) (budget : Nat) : Action W (Option Payload) := do
  let s ← get
  match s.inbox.take? expected with
  | some (p, inbox) =>
    set { s with inbox := inbox }
    return some p
  | none => receive (expecting expected) budget

def await (expected : List PayloadKind) (budget : Nat) (awaited : String) : Action W Payload := do
  match ← next? expected budget with
  | some p => return p
  | none => throw (.timeout awaited)

/-- The error for a reply that refuses, or that is of no use here. -/
def rejection (p : Payload) : SessionError :=
  match p.reason? with
  | some r => .rejected r
  | none => .unexpectedReply p.kind

end Session

end Geocast
