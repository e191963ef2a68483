import Geocast.Message.Payload

/-! # Which publications stay local

A broker forwards a publication to the peers that its geofence reaches, unless the policy of the
broker keeps it local. The convention of function calls keeps two kinds of publications local: the
results that a local service node publishes, and the requests that found a subscriber already. -/

namespace Geocast

/-- What a broker knows of a publication when it decides about forwarding. -/
structure ForwardContext where
  publisher : String
  topic : Topic
  /-- The outcome of local matching; `noMatchingSubscribers` also when none was attempted. -/
  localResult : ReasonCode

/-- Decides whether a publication is kept away from the peers. -/
abbrev ForwardingPolicy := ForwardContext → Bool

/-- Every publication is forwarded. -/
def ForwardingPolicy.forwardAll : ForwardingPolicy := fun _ => false

/-- The topic levels and client ids by which function calls are recognised. -/
structure CallConvention where
  requestSuffix : String
  resultSuffix : String
  servicePrefix : String
  rootServicePrefix : String
deriving DecidableEq, Repr

namespace CallConvention

/-- The convention that brokers follow unless configured otherwise. -/
def standard : CallConvention := ⟨"call", "result", "GeoFaaS-", "GeoFaaS-Cloud"⟩

def begins (start text : String) : Bool := start.toList.isPrefixOf text.toList

/-- Whether a client is a service node other than one of the root. -/
def isLocalService (c : CallConvention) (publisher : String) : Bool :=
  begins c.servicePrefix publisher && !begins c.rootServicePrefix publisher

def policy (c : CallConvention) : ForwardingPolicy := fun ctx =>
  (ctx.topic.endsWithLevel c.resultSuffix && c.isLocalService ctx.publisher)
    || (ctx.topic.endsWithLevel c.requestSuffix
      && ctx.localResult ≠ ReasonCode.noMatchingSubscribers)

end CallConvention

end Geocast
