import Geocast.Session.Basic

/-! # Registration and handoff

A client registers with a broker by CONNECT. A broker that is not responsible for the location of
the client names another one, and the client moves along such redirects until a broker accepts it.
If that fails, the session goes back to where the first redirect found it. -/

namespace Geocast

/-- How a broker answered a registration. -/
inductive Registration
  | accepted
  | redirected (target : BrokerInfo)

namespace Session

variable {W : Wire}

def askToRegister : Action W Payload := do
  let s ← get
  send (.connect s.location)
  await [.connAck, .disconnect] s.options.connectTimeout "CONNACK"

def registration : Payload → Except SessionError Registration
  | .connAck .success => .ok .accepted
  | .disconnect .wrongBroker (some target) => .ok (.redirected target)
  | .disconnect .wrongBroker none => .error .noResponsibleBroker
  | p => .error (rejection p)

/-- Registers on the open channel. A refusal for an id that is in use is asked again, up to
`retries` times, because the broker forgets the earlier client when it refuses. -/
def registerRetrying : (retries : Nat) → Action W Registration
  | 0 => do ofOutcome (registration (← askToRegister))
  | retries + 1 => do
    match ← askToRegister with
    | .disconnect .protocolError _ => registerRetrying retries
    | p => ofOutcome (registration p)

def register : Action W Registration := registerRetrying 1

def inHandoff {α : Type} (target : BrokerInfo) (x : Action W α) : Action W α :=
  tryCatch x fun e => throw (.handoffFailed target e.message)

/-- Notes the current broker as visited. A client that is sent to a broker visited before goes on
under a new id, made from the old one and the time, since that broker may still know the old
one. -/
def leave (target : BrokerInfo) : Action W Unit :=
  modify fun s =>
    let visited := s.address :: s.visited
    if target.address ∈ visited then
      { s with id := s.id ++ "-" ++ toString (W.calendar s.wire), visited := [] }
    else { s with visited := visited }

/-- One hop: opens a channel to the target, closes that of the hop before, and registers. -/
def handoff (target : BrokerInfo) : Action W Registration := do
  leave target
  let l ← inHandoff target (dial target.address)
  closeChannel
  modify fun s => { s with link := some l, address := target.address }
  inHandoff target register

/-- Hops from redirect to redirect, at most `hops` times, until a broker accepts the client. -/
def hopUntilAccepted (limit : Nat) : (hops : Nat) → BrokerInfo → Action W Unit
  | 0, _ => throw (.tooManyRedirects limit)
  | hops + 1, target => do
    match ← handoff target with
    | .accepted => return
    | .redirected next => hopUntilAccepted limit hops next

/-- Puts a session back to where a failed chain of redirects began. -/
def restore (origin : Session W) : Action W Unit :=
  modify fun s =>
    { s with
      link := origin.link
      address := origin.address
      id := origin.id
      visited := origin.visited
      inbox := origin.inbox }

/-- Moves the session along the redirects that begin with `target`. The channel where they began
stays open until a broker accepts the client. -/
def followRedirects (target : BrokerInfo) : Action W Unit := do
  let origin ← get
  set { origin with link := none, inbox := .empty }
  tryCatch (hopUntilAccepted origin.options.maxHandoffHops origin.options.maxHandoffHops target)
    fun e => do
      closeChannel
      restore origin
      throw e
  match origin.link with
  | some l => hangUp l
  | none => pure ()
  modify fun s => { s with subscriptions := ∅ }

end Session

end Geocast
