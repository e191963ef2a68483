import Geocast.Message.Function
import Geocast.Session.Operations

/-! # Calling functions

A client calls a remote function by publishing a call and waiting for the messages that answer it.
Publications that arrive meanwhile and belong to no other call are kept for later. -/

namespace Geocast

/-- A function to be called, and how hard to try. -/
structure CallRequest where
  function : String
  data : String
  request : RequestId
  /-- Where the call is published. -/
  pubFence : Geofence
  /-- Where acknowledgement and result are expected from. -/
  subFence : Geofence
  /-- Attempts after the first one went unanswered. -/
  retries : Nat
  /-- How often one attempt publishes the call while it is not acknowledged; at least once. -/
  ackAttempts : Nat
  /-- Whether a call that nobody acknowledged is offered to the cloud. -/
  cloudRetry : Bool
  ackTimeout : Option Nat
  resultTimeout : Option Nat

/-- A request tried once, with the same fence for the call and for its answers. -/
def CallRequest.plain (function data : String) (request : RequestId) (fence : Geofence) :
    CallRequest :=
  { function := function, data := data, request := request, pubFence := fence, subFence := fence,
    retries := 0, ackAttempts := 1, cloudRetry := false, ackTimeout := none,
    resultTimeout := none }

namespace Session

variable {W : Wire}

/-! ## Listening -/

/-- What a publication is to a client that waits for a message of one call. -/
inductive Relevance
  /-- The message that is waited for. -/
  | wanted (m : FunctionMessage)
  /-- A message of another call, which is of no use to anybody here. -/
  | foreign
  /-- Anything else, which is kept. -/
  | kept

/-- Judges a publication by its content. -/
def relevance (action : FunctionAction) (request : RequestId) (p : Publication) : Relevance :=
  match FunctionMessage.decode? p.content with
  | none => .kept
  | some m =>
    if m.request ≠ request then .foreign
    else if m.action = action then .wanted m
    else .kept

/-- Searches parked publications for the message that is waited for. Returns the publications
that are kept, and with the message those that were not looked at. -/
def search (action : FunctionAction) (request : RequestId) :
    List Publication → List Publication × Option (FunctionMessage × List Publication)
  | [] => ([], none)
  | p :: ps =>
    match relevance action request p with
    | .wanted m => ([], some (m, ps))
    | .foreign => search action request ps
    | .kept =>
      let (kept, found) := search action request ps
      (p :: kept, found)

/-- Accepts the message that is waited for, drops those of other calls and parks all else. -/
def listening (action : FunctionAction) (request : RequestId) : Payload → Verdict FunctionMessage
  | .publish p =>
    match relevance action request p with
    | .wanted m => .accept m
    | .foreign => .drop
    | .kept => .park
  | _ => .park

/-- Waits for the message of a call with the given action, in the parked publications first.
Publications kept from before the message go behind those that were not looked at. -/
def listen (action : FunctionAction) (request : RequestId) (budget : Nat) :
    Action W (Option FunctionMessage) := do
  let s ← get
  match search action request s.inbox.publications with
  | (kept, some (m, rest)) =>
    set { s with inbox := { s.inbox with publications := rest ++ kept } }
    return some m
  | (kept, none) =>
    set { s with inbox := { s.inbox with publications := kept } }
    receive (listening action request) budget

/-! ## Publishing the call -/

def subscribeAll : List (Topic × Geofence) → Action W Unit
  | [] => return
  | (t, g) :: rest => do
    let _ ← subscribe t g
    subscribeAll rest

/-- Publishes, and when redirected moves to the broker named, subscribes anew there and publishes
again, at most `times` times in all. -/
def publishFollowing (limit : Nat) (t : Topic) (g : Geofence) (content : String) :
    (times : Nat) → Action W ReasonCode
  | 0 => throw (.tooManyRedirects limit)
  | times + 1 => do
    match ← publish t g content with
    | .acked reason => return reason
    | .redirected (some target) =>
      let wanted := (← get).subscriptions
      followRedirects target
      subscribeAll wanted.entries
      publishFollowing limit t g content times
    | .redirected none => throw .noResponsibleBroker

/-- Whether a published call can be answered at all. -/
inductive CallDelivery
  | delivered
  | noSubscribers
  | notConnected
deriving DecidableEq, Repr

def publishCall (r : CallRequest) (content : String) (t : Topic) : Action W CallDelivery := do
  let limit := (← get).options.maxHandoffHops
  match ← publishFollowing limit t r.pubFence content (limit + 1) with
  | .noMatchingSubscribers => return .noSubscribers
  | .notConnectedOrNoLocation => return .notConnected
  | _ => return .delivered

/-! ## Waiting for an answer -/

/-- What came back on a published call. -/
inductive CallAnswer
  | ack
  | result (m : FunctionMessage)
  | refused
  | silent

/-- Waits for the acknowledgement. When none comes, a result or a refusal that is parked answers
the call as well. -/
def awaitAck (request : RequestId) (budget : Nat) : Action W CallAnswer := do
  if (← listen .ack request budget).isSome then return .ack
  if let some m ← listen .result request 0 then return .result m
  if (← listen .nack request 0).isSome then return .refused
  return .silent

/-- How far seeking an acknowledgement got. -/
inductive Solicited
  | acknowledged
  | answered (m : FunctionMessage)
  | unacknowledged
  /-- The broker does not know the client. -/
  | unknownHere

/-- Publishes the call up to `times` times until it is acknowledged. A refusal, or that nobody
serves the function, ends this early. -/
def solicit (r : CallRequest) (content : String) (ackTimeout : Nat) (t : Topic) :
    (times : Nat) → Action W Solicited
  | 0 => return .unacknowledged
  | times + 1 => do
    match ← publishCall r content t with
    | .noSubscribers => return .unacknowledged
    | .notConnected => return .unknownHere
    | .delivered =>
      match ← awaitAck r.request ackTimeout with
      | .ack => return .acknowledged
      | .result m => return .answered m
      | .refused => return .unacknowledged
      | .silent => solicit r content ackTimeout t times

/-- Seeks an acknowledgement among the nodes that serve the function, and then, if the request
says so, once in the cloud. -/
def solicitAnywhere (r : CallRequest) (content : String) (ackTimeout : Nat) :
    Action W Solicited := do
  match ← solicit r content ackTimeout (functionTopic r.function .call) (max 1 r.ackAttempts) with
  | .unacknowledged =>
    if r.cloudRetry then solicit r content ackTimeout (functionTopic r.function .nack) 1
    else return .unacknowledged
  | outcome => return outcome

/-- Makes up to `times` attempts, each of which waits for the result once it is acknowledged. -/
def attempt (r : CallRequest) (content : String) (ackTimeout resultTimeout : Nat) :
    (times : Nat) → Action W (Option FunctionMessage)
  | 0 => return none
  | times + 1 => do
    match ← solicitAnywhere r content ackTimeout with
    | .answered m => return some m
    | .unknownHere => return none
    | .unacknowledged => attempt r content ackTimeout resultTimeout times
    | .acknowledged =>
      match ← listen .result r.request resultTimeout with
      | some m => return some m
      | none => attempt r content ackTimeout resultTimeout times

def callMessage (r : CallRequest) (sender : String) : FunctionMessage :=
  { function := r.function
    action := .call
    data := r.data
    style := .normal
    response := ⟨functionTopic r.function .result, r.subFence⟩
    sender := sender
    receiver := ""
    request := r.request }

/-- Calls a function and waits for its result. There is none if every attempt went unanswered, or
if the broker does not know the client. -/
def call (r : CallRequest) : Action W (Option FunctionMessage) := do
  let options := (← get).options
  let _ ← subscribe (functionTopic r.function .result) r.subFence
  let _ ← subscribe (functionTopic r.function .ack) r.subFence
  let content := (callMessage r (← get).id).encode
  attempt r content (r.ackTimeout.getD options.ackTimeout)
    (r.resultTimeout.getD options.resultTimeout) (r.retries + 1)

end Session

end Geocast
