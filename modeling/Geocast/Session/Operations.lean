import Geocast.Session.Handoff

/-! # Operations of a session

What an application asks of its session. Each operation sends its request and waits for the reply
to it under a deadline. -/

namespace Geocast

inductive SubscribeStatus
  | granted
  | alreadySubscribed
deriving DecidableEq, Repr

inductive UnsubscribeStatus
  | removed
  | notFound
deriving DecidableEq, Repr

inductive LocationStatus
  | updated
  /-- The broker did not know the client; the location is kept here. -/
  | notConnected
  /-- The location belongs to another broker, and the session moved. -/
  | handedOff (target : BrokerInfo)
deriving DecidableEq, Repr

/-- How a broker answered a publication. -/
inductive PublishOutcome
  | acked (reason : ReasonCode)
  /-- The broker is not responsible; whether to move is left to the caller. -/
  | redirected (target : Option BrokerInfo)
deriving DecidableEq, Repr

namespace Session

variable {W : Wire}

/-- Registers with the broker at an address, or with the one it redirects to. A former session is
dropped. -/
def connect (address : String) : Action W Unit := do
  closeChannel
  modify fun s => { s with visited := [], subscriptions := ∅, address := address }
  let l ← dial address
  modify fun s => { s with link := some l }
  tryCatch
    (do
      match ← register with
      | .accepted => return
      | .redirected target => followRedirects target)
    fun e => do
      closeChannel
      throw e

/-- Takes leave of the broker and drops the session. Only the location is kept. -/
def disconnect : Action W Unit := do
  if (← get).isConnected then
    tryCatch (send (.disconnect .normalDisconnection none)) fun _ => return
  closeChannel
  modify fun s => { s with subscriptions := ∅, visited := [] }

/-- Subscribes to a topic within a geofence. A topic that is tracked is not sent again. -/
def subscribe (t : Topic) (g : Geofence) : Action W SubscribeStatus := do
  let s ← get
  if s.subscriptions.contains t then return .alreadySubscribed
  send (.subscribe t g)
  match ← await [.subAck] s.options.ackTimeout "SUBACK" with
  | .subAck .grantedQoS0 =>
    modify fun s => { s with subscriptions := s.subscriptions.insert t g }
    return .granted
  | p => throw (rejection p)

/-- Gives up the subscription to a topic, at the broker and here. -/
def unsubscribe (t : Topic) : Action W UnsubscribeStatus := do
  send (.unsubscribe t)
  match ← await [.unsubAck] (← get).options.ackTimeout "UNSUBACK" with
  | .unsubAck .success =>
    modify fun s => { s with subscriptions := s.subscriptions.erase t }
    return .removed
  | .unsubAck .noSubscriptionExisted =>
    modify fun s => { s with subscriptions := s.subscriptions.erase t }
    return .notFound
  | p => throw (rejection p)

def moveTo (l : Location) : Action W Unit := modify fun s => { s with location := some l }

/-- Reports a location. If another broker is responsible for it, the session moves there. -/
def updateLocation (l : Location) : Action W LocationStatus := do
  send (.pingReq (some l))
  match ← await [.pingResp, .disconnect] (← get).options.ackTimeout "PINGRESP" with
  | .pingResp .locationUpdated =>
    moveTo l
    modify fun s => { s with subscriptions := ∅ }
    return .updated
  | .pingResp .notConnectedOrNoLocation =>
    moveTo l
    return .notConnected
  | .disconnect .wrongBroker (some target) =>
    moveTo l
    followRedirects target
    return .handedOff target
  | .disconnect .wrongBroker none =>
    moveTo l
    closeChannel
    throw .noResponsibleBroker
  | p => throw (rejection p)

/-- Publishes content to a topic within a geofence. A redirect is reported, not followed. -/
def publish (t : Topic) (g : Geofence) (content : String) : Action W PublishOutcome := do
  send (.publish ⟨t, g, content⟩)
  match ← await [.pubAck, .disconnect] (← get).options.ackTimeout "PUBACK" with
  | .pubAck r => return .acked r
  | .disconnect .wrongBroker target => return .redirected target
  | p => throw (rejection p)

/-- The next publication that was delivered, or none within `budget`. -/
def nextPublication (budget : Nat) : Action W (Option Publication) := do
  match ← next? [.publish] budget with
  | some (.publish p) => return some p
  | some p => throw (.unexpectedReply p.kind)
  | none => return none

end Session

end Geocast
