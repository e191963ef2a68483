/-! # Reason codes

Every acknowledgement and every disconnect carries a reason code. -/

namespace Geocast

/-- Why a peer was answered the way it was. -/
inductive ReasonCode
  | success
  | normalDisconnection
  | grantedQoS0
  | locationUpdated
  | notConnectedOrNoLocation
  | noMatchingSubscribers
  | noMatchingSubscribersButForwarded
  | noSubscriptionExisted
  | protocolError
  | wrongBroker
deriving DecidableEq, Repr

namespace ReasonCode

def all : List ReasonCode :=
  [success, normalDisconnection, grantedQoS0, locationUpdated, notConnectedOrNoLocation,
    noMatchingSubscribers, noMatchingSubscribersButForwarded, noSubscriptionExisted,
    protocolError, wrongBroker]

def name : ReasonCode → String
  | success => "Success"
  | normalDisconnection => "NormalDisconnection"
  | grantedQoS0 => "GrantedQoS0"
  | locationUpdated => "LocationUpdated"
  | notConnectedOrNoLocation => "NotConnectedOrNoLocation"
  | noMatchingSubscribers => "NoMatchingSubscribers"
  | noMatchingSubscribersButForwarded => "NoMatchingSubscribersButForwarded"
  | noSubscriptionExisted => "NoSubscriptionExisted"
  | protocolError => "ProtocolError"
  | wrongBroker => "WrongBroker"

def ofName? (s : String) : Option ReasonCode := all.find? fun r => r.name = s

end ReasonCode

end Geocast
