import Geocast.Message.Payload

/-! # Errors of a session

What can go wrong between a client and its broker, and the text for each. -/

namespace Geocast

/-- Why an operation of a session failed. -/
inductive SessionError
  | transport (cause : String)
  | malformed (cause : String)
  | channelClosed
  /-- No reply came in time. -/
  | timeout (awaited : String)
  | rejected (reason : ReasonCode)
  | unexpectedReply (kind : PayloadKind)
  | noResponsibleBroker
  /-- The broker that the client was sent to could not be reached or refused it. -/
  | handoffFailed (target : BrokerInfo) (cause : String)
  | tooManyRedirects (limit : Nat)
deriving DecidableEq, Repr

def SessionError.message : SessionError → String
  | transport cause => "transport error: " ++ cause
  | malformed cause => "malformed frame: " ++ cause
  | channelClosed => "channel to broker closed"
  | timeout awaited => "timed out waiting for " ++ awaited
  | rejected reason => "broker answered with " ++ reason.name
  | unexpectedReply kind => "unexpected reply: " ++ kind.name
  | noResponsibleBroker => "no broker is responsible for the current location"
  | handoffFailed target cause =>
    "handoff to " ++ target.id ++ " at " ++ target.address ++ " failed: " ++ cause
  | tooManyRedirects limit => "gave up after " ++ toString limit ++ " broker redirects"

end Geocast
