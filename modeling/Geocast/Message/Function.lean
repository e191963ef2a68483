import Geocast.Message.Decoding

/-! # Function messages

Remote functions are called through publications. A caller publishes a `call` on the call topic
of a function; a node that serves it answers with an `ack` and later with a `result` on the topics
of these actions, and a node of the cloud may refuse with a `nack`. All messages of one exchange
carry the same `RequestId`, and their text is the content of the publications. -/

namespace Geocast

/-- What a function message is for. -/
inductive FunctionAction
  | call
  | ack
  | nack
  | result
deriving DecidableEq, Repr

/-- Whether an acknowledgement is sent on its own or rides on the result. -/
inductive AckStyle
  | normal
  | piggy
deriving DecidableEq, Repr

/-- Names one call: its number and the client that made it. -/
structure RequestId where
  seq : Nat
  clientId : String
  /-- A free label, such as the place that the call came from. -/
  place : String
deriving DecidableEq, Repr

/-- Where the answer to a call is to be published. -/
structure ResponseTopic where
  topic : Topic
  fence : Geofence
deriving BEq

/-- A message of the exchange between a caller and the node that serves a function. -/
structure FunctionMessage where
  function : String
  action : FunctionAction
  data : String
  style : AckStyle
  response : ResponseTopic
  sender : String
  receiver : String
  request : RequestId
deriving BEq

namespace FunctionAction

def all : List FunctionAction := [call, ack, nack, result]

def name : FunctionAction → String
  | call => "CALL"
  | ack => "ACK"
  | nack => "NACK"
  | result => "RESULT"

/-- The level of topics that belongs to an action. -/
def level : FunctionAction → String
  | call => "call"
  | ack => "ack"
  | nack => "nack"
  | result => "result"

def ofName? (s : String) : Option FunctionAction := all.find? fun a => a.name = s

def ofJson? (v : Json) : Option FunctionAction := (v.name? Json.isNull).bind ofName?

end FunctionAction

namespace AckStyle

def name : AckStyle → String
  | normal => "NORMAL"
  | piggy => "PIGGY"

def ofName? (s : String) : Option AckStyle := [normal, piggy].find? fun a => a.name = s

def ofJson? (v : Json) : Option AckStyle := (v.name? Json.isNull).bind ofName?

end AckStyle

/-- The topic on which the messages of one action are published for a function. -/
def functionTopic (function : String) (action : FunctionAction) : Topic :=
  ⟨"functions/" ++ function ++ "/" ++ action.level⟩

namespace RequestId

/-- The text of a request: its client and its number. -/
def text (r : RequestId) : String := r.clientId ++ "#" ++ toString r.seq

def toJson (r : RequestId) : Json :=
  .ofMembers [("seq", .nat r.seq), ("client_id", .text r.clientId), ("place", .text r.place)]

/-- Reads a request. Without a place it gets an empty one. -/
def ofJson? (v : Json) : Option RequestId := do
  match ← v.fields? ["seq", "client_id", "place"] 1 with
  | [seq, clientId, place] =>
    let place ← match place with
      | some p => p.string?
      | none => some ""
    return ⟨← Json.required Json.nat? seq, ← Json.required Json.string? clientId, place⟩
  | _ => none

end RequestId

namespace ResponseTopic

def toJson (r : ResponseTopic) : Json :=
  .ofMembers [("topic", r.topic.toJson), ("fence", r.fence.toJson)]

/-- Reads a response topic that lies in `outer` arrays and objects. -/
def ofJson? (outer : Nat) (v : Json) : Option ResponseTopic := do
  match ← v.fields? ["topic", "fence"] 0 with
  | [topic, fence] =>
    return ⟨← Json.required Topic.ofJson? topic,
      ← Json.required (Geofence.ofJson? (outer + 1)) fence⟩
  | _ => none

end ResponseTopic

namespace FunctionMessage

def toJson (m : FunctionMessage) : Json :=
  .ofMembers [("func_name", .text m.function), ("action", .text m.action.name),
    ("data", .text m.data), ("type_code", .text m.style.name),
    ("response_topic", m.response.toJson), ("sender_id", .text m.sender),
    ("receiver_id", .text m.receiver), ("req_id", m.request.toJson)]

/-- The names of the fields in their order. -/
def fieldNames : List String :=
  ["func_name", "action", "data", "type_code", "response_topic", "sender_id", "receiver_id",
    "req_id"]

def ofJson? (v : Json) : Option FunctionMessage := do
  match ← v.fields? fieldNames 0 with
  | [function, action, data, style, response, sender, receiver, request] =>
    return {
      function := ← Json.required Json.string? function
      action := ← Json.required FunctionAction.ofJson? action
      data := ← Json.required Json.string? data
      style := ← Json.required AckStyle.ofJson? style
      response := ← Json.required (ResponseTopic.ofJson? 1) response
      sender := ← Json.required Json.string? sender
      receiver := ← Json.required Json.string? receiver
      request := ← Json.required RequestId.ofJson? request }
  | _ => none

def encode (m : FunctionMessage) : String := m.toJson.render

def decode? (text : String) : Option FunctionMessage := do ofJson? (← Json.parse text)

end FunctionMessage

end Geocast
