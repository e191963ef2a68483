import Geocast.Session.Error

/-! # Wires

A wire is whatever carries payloads between clients and brokers: it opens channels to addresses,
sends and receives on them, and keeps the time. Its state covers everything outside the client,
the brokers at the other end included. A wire releases finitely many payloads between two sends,
which `pending` counts; so a client that only receives cannot be kept busy forever. -/

namespace Geocast

/-- A carrier of payloads. Times are in milliseconds. -/
structure Wire where
  /-- The state of everything outside the client. -/
  State : Type
  Channel : Type
  /-- Opens a channel to an address for a client id. -/
  dial : (address clientId : String) → State → Except SessionError Channel × State
  send : Channel → Payload → State → Except SessionError Unit × State
  /-- Waits for the next payload as long as a budget of time lasts. -/
  recv : Channel → (budget : Nat) → State → Except SessionError (Option Payload) × State
  close : Channel → State → State
  /-- The clock by which deadlines are kept. -/
  now : State → Nat
  /-- The wall clock, from which client ids are made. -/
  calendar : State → Nat
  /-- The number of payloads that can still be received if nothing is sent. -/
  pending : State → Nat
  pending_recv : ∀ c budget w p, (recv c budget w).1 = .ok (some p) →
    pending (recv c budget w).2 < pending w

/-- What a client did on its wire. Channels are numbered in the order in which they were
opened. -/
inductive WireEvent
  | refused (address clientId : String)
  | opened (channel : Nat) (address clientId : String)
  | sent (channel : Nat) (address : String) (p : Payload)
  | received (channel : Nat) (p : Payload)
  | closed (channel : Nat) (address : String)

def WireEvent.isOpened : WireEvent → Bool
  | opened .. => true
  | _ => false

end Geocast
