import Geocast.Ascending
import Geocast.Broker.Atlas
import Geocast.Broker.Basic
import Geocast.Broker.Dispatch
import Geocast.Broker.Forwarding
import Geocast.Broker.Handle
import Geocast.Broker.Publication
import Geocast.Broker.Registration
import Geocast.Broker.Roster
import Geocast.Broker.TopicIndex
import Geocast.Decimal.Binary
import Geocast.Decimal.Numeral
import Geocast.Decimal.Places
import Geocast.Decimal.Shortest
import Geocast.Decimal.Word
import Geocast.Federation
import Geocast.Geofence.Basic
import Geocast.Geofence.Ring
import Geocast.Hypotenuse
import Geocast.Json.Basic
import Geocast.Json.Reader
import Geocast.Json.Record
import Geocast.Json.Writer
import Geocast.Location
import Geocast.Message.Decoding
import Geocast.Message.Encoding
import Geocast.Message.Function
import Geocast.Message.Payload
import Geocast.Message.Reason
import Geocast.Message.Topic
import Geocast.Proofs.Ascending
import Geocast.Proofs.Broker.Acknowledgement
import Geocast.Proofs.Broker.Answer
import Geocast.Proofs.Broker.Coherence
import Geocast.Proofs.Broker.Fanout
import Geocast.Proofs.Broker.Filing
import Geocast.Proofs.Broker.Gate
import Geocast.Proofs.Broker.History
import Geocast.Proofs.Broker.InCharge
import Geocast.Proofs.Broker.Interleaving
import Geocast.Proofs.Broker.Located
import Geocast.Proofs.Broker.Matching
import Geocast.Proofs.Broker.Policy
import Geocast.Proofs.Broker.Publication
import Geocast.Proofs.Broker.Readable
import Geocast.Proofs.Broker.Reply
import Geocast.Proofs.Broker.Responsibility
import Geocast.Proofs.Broker.Run
import Geocast.Proofs.Broker.Summary
import Geocast.Proofs.Broker.Untouched
import Geocast.Proofs.Decimal.Exchange
import Geocast.Proofs.Decimal.Finite
import Geocast.Proofs.Decimal.Order
import Geocast.Proofs.Decimal.Reading
import Geocast.Proofs.Decimal.Rounding
import Geocast.Proofs.Federation.Agreement
import Geocast.Proofs.Federation.Confined
import Geocast.Proofs.Federation.Delivery
import Geocast.Proofs.Federation.Fleet
import Geocast.Proofs.Federation.Landing
import Geocast.Proofs.Federation.Matching
import Geocast.Proofs.Federation.Operations
import Geocast.Proofs.Federation.Rehoming
import Geocast.Proofs.Federation.Replies
import Geocast.Proofs.Federation.Run
import Geocast.Proofs.Federation.Standing
import Geocast.Proofs.Federation.Superseding
import Geocast.Proofs.Federation.Waiting
import Geocast.Proofs.Geofence.Exact
import Geocast.Proofs.Geofence.Outline
import Geocast.Proofs.Geofence.Plane
import Geocast.Proofs.Geofence.Rectangle
import Geocast.Proofs.Geofence.Symmetry
import Geocast.Proofs.Hypotenuse
import Geocast.Proofs.Json.Reading
import Geocast.Proofs.Json.Record
import Geocast.Proofs.Message.Doubles
import Geocast.Proofs.Message.Function
import Geocast.Proofs.Message.FunctionTopic
import Geocast.Proofs.Message.RoundTrip
import Geocast.Proofs.Session.Accounts
import Geocast.Proofs.Session.Call
import Geocast.Proofs.Session.Chronicle
import Geocast.Proofs.Session.Closing
import Geocast.Proofs.Session.Conservation
import Geocast.Proofs.Session.Consistency
import Geocast.Proofs.Session.Correlation
import Geocast.Proofs.Session.Deadline
import Geocast.Proofs.Session.Due
import Geocast.Proofs.Session.Effort
import Geocast.Proofs.Session.Exec
import Geocast.Proofs.Session.Failures
import Geocast.Proofs.Session.Grants
import Geocast.Proofs.Session.Handoff
import Geocast.Proofs.Session.Handover
import Geocast.Proofs.Session.Listening
import Geocast.Proofs.Session.ListeningOrder
import Geocast.Proofs.Session.Numbering
import Geocast.Proofs.Session.Operations
import Geocast.Proofs.Session.Parking
import Geocast.Proofs.Session.Queueing
import Geocast.Proofs.Session.Receiving
import Geocast.Proofs.Session.Redirects
import Geocast.Proofs.Session.Refusals
import Geocast.Proofs.Session.Registering
import Geocast.Proofs.Session.Roaming
import Geocast.Proofs.Session.Rollback
import Geocast.Proofs.Session.Run
import Geocast.Proofs.Session.Script
import Geocast.Proofs.Session.Selecting
import Geocast.Proofs.Session.Settled
import Geocast.Proofs.Session.Stranding
import Geocast.Proofs.Session.Tariff
import Geocast.Proofs.Session.Tracking
import Geocast.Proofs.Session.Traffic
import Geocast.Proofs.Session.Unanswered
import Geocast.Proofs.Session.Unlinked
import Geocast.Proofs.Settings.Layering
import Geocast.Proofs.Settings.Order
import Geocast.Proofs.Settings.TextSettings
import Geocast.Session.Basic
import Geocast.Session.Call
import Geocast.Session.Error
import Geocast.Session.Handoff
import Geocast.Session.Inbox
import Geocast.Session.Operations
import Geocast.Session.Script
import Geocast.Session.Wire
import Geocast.Settings.Basic
import Geocast.Settings.Environment
import Geocast.Settings.Files
import Geocast.Settings.Setting
import Geocast.Settings.Toml
import Geocast.Settings.Toml.Moment
import Geocast.Settings.Toml.Scalar
import Geocast.Settings.Toml.Text
import Geocast.Settings.Toml.Tree
import Geocast.Severity
import Geocast.Table
