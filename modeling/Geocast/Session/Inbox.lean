import Geocast.Message.Payload

/-! # The inbox

What arrives while a client waits for something else is parked. Publications and replies are kept
apart, each in the order of arrival, so that reading publications never uses up a reply. -/

namespace Geocast

/-- Parked payloads, the oldest first. -/
structure Inbox where
  /-- Everything but publications. -/
  replies : List Payload
  publications : List Publication

namespace Inbox

def empty : Inbox := ⟨[], []⟩

/-- Parks a payload behind those that came before. -/
def park (i : Inbox) : Payload → Inbox
  | .publish p => { i with publications := i.publications ++ [p] }
  | p => { i with replies := i.replies ++ [p] }

/-- Takes the oldest reply of an expected kind, or else the oldest publication if these are
expected. -/
def take? (i : Inbox) (expected : List PayloadKind) : Option (Payload × Inbox) :=
  match i.replies.find? (·.kind ∈ expected) with
  | some p => some (p, { i with replies := i.replies.eraseP (·.kind ∈ expected) })
  | none =>
    match i.publications with
    | p :: ps =>
      if .publish ∈ expected then some (.publish p, { i with publications := ps }) else none
    | [] => none

def size (i : Inbox) : Nat := i.replies.length + i.publications.length

def isEmpty (i : Inbox) : Bool := i.replies.isEmpty && i.publications.isEmpty

end Inbox

end Geocast
