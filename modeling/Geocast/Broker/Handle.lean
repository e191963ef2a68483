import Geocast.Broker.Publication
import Geocast.Broker.Registration

/-! # Processing payloads

`Broker.handle` is all that a broker does: it takes one payload from a peer and returns the broker
as it is afterwards with the messages to be sent. It does no input or output. -/

namespace Geocast

namespace Broker

/-- Processes one payload from a peer. Clients register anew with each broker, so a broker
discards what a peer forwards about the state of a client, and it discards replies. -/
def handle (b : Broker) (peer : String) : Payload → Broker × Dispatch
  | .connect l => b.connect peer l
  | .disconnect .. => (b.evict peer, .empty)
  | .pingReq l => b.ping peer l
  | .subscribe t g => b.subscribe peer t g
  | .unsubscribe t => b.unsubscribe peer t
  | .publish p => b.publish peer p
  | .forwardPublish p l => (b, b.receiveForward peer p l)
  | .forwardSubscribe .. | .forwardUnsubscribe .. | .forwardDisconnect .. | .forwardPingReq ..
  | .connAck .. | .pingResp .. | .subAck .. | .unsubAck .. | .pubAck .. => (b, .empty)

end Broker

end Geocast
