import Geocast.Session.Basic

/-! # A scripted wire

A wire on which the answers are laid down beforehand: for each address a list of batches, one for
each payload that is sent there. It shows what a session does with given answers, late, missing
and failing ones included. -/

namespace Geocast

namespace Script

inductive Item
  | payload (p : Payload)
  | failure (e : SessionError)

inductive Batch
  | fail
  /-- Items become ready after delays. -/
  | deliver (items : List (Nat × Item))

/-- An item on its way to a channel. -/
structure Arrival where
  channel : Nat
  ready : Nat
  item : Item

structure State where
  refused : List String
  /-- The batches not used yet, by address. -/
  script : Table String (List Batch)
  opened : Nat
  /-- The items not received yet, in the order in which they were released. -/
  arrivals : List Arrival
  clock : Nat
  calendar : Nat

structure Channel where
  number : Nat
  address : String

/-- The wire before anything happened. The wall clock stands still at `epoch`. -/
def start (refused : List String) (script : Table String (List Batch)) (epoch : Nat) : State :=
  { refused := refused, script := script, opened := 0, arrivals := [], clock := 0,
    calendar := epoch }

/-- Opens a channel unless the address refuses. -/
def dial (address _clientId : String) (w : State) : Except SessionError Channel × State :=
  if address ∈ w.refused then (.error (.transport "connection refused"), w)
  else (.ok ⟨w.opened, address⟩, { w with opened := w.opened + 1 })

/-- Takes the next batch of the address and releases its items to the sending channel. -/
def send (c : Channel) (_ : Payload) (w : State) : Except SessionError Unit × State :=
  match w.script.get? c.address with
  | some (batch :: batches) =>
    let w := { w with script := w.script.insert c.address batches }
    match batch with
    | .fail => (.error (.transport "send failed"), w)
    | .deliver items =>
      let arrivals := items.map fun (delay, item) => ⟨c.number, w.clock + delay, item⟩
      (.ok (), { w with arrivals := w.arrivals ++ arrivals })
  | _ => (.ok (), w)

/-- Whether an item is on its way to a channel. -/
def Arrival.isFor (c : Channel) (a : Arrival) : Bool := a.channel = c.number

/-- Waits for the first item of the channel, and for none behind it. -/
def recv (c : Channel) (budget : Nat) (w : State) : Except SessionError (Option Payload) × State :=
  match w.arrivals.find? (Arrival.isFor c) with
  | none => (.ok none, { w with clock := w.clock + budget })
  | some a =>
    if w.clock + budget < a.ready then (.ok none, { w with clock := w.clock + budget })
    else
      let w' := { w with
        clock := max w.clock a.ready
        arrivals := w.arrivals.eraseP (Arrival.isFor c) }
      match a.item with
      | .payload p => (.ok (some p), w')
      | .failure e => (.error e, w')

theorem pending_recv (c : Channel) (budget : Nat) (w : State) (p : Payload)
    (h : (recv c budget w).1 = .ok (some p)) :
    (recv c budget w).2.arrivals.length < w.arrivals.length := by
  revert h
  unfold recv
  cases hf : w.arrivals.find? (Arrival.isFor c) with
  | none => simp
  | some a =>
    have hm := List.mem_of_find?_eq_some hf
    have hp := List.find?_some hf
    have hl := List.length_eraseP_of_mem hm hp
    have hpos := List.length_pos_of_mem hm
    dsimp only
    split
    · simp
    · cases a.item with
      | payload q => simp [hl]; omega
      | failure e => simp

end Script

def Script.wire : Wire where
  State := Script.State
  Channel := Script.Channel
  dial := Script.dial
  send := Script.send
  recv := Script.recv
  close := fun _ w => w
  now := Script.State.clock
  calendar := Script.State.calendar
  pending := fun w => w.arrivals.length
  pending_recv := Script.pending_recv

end Geocast
