import Geocast.Proofs.Session.Receiving

/-! # Traffic on a channel

The history of a session records what it did on its wire. Sending and waiting add events on the open
channel and leave everything but the inbox, the history and the wire alone: that is `Traffic`. No
traffic opens or closes a channel, so a session stays `Numbered` by it. -/

namespace Geocast

namespace WireEvent

/-- The number of the channel that an event is about. A refused call is about none. -/
def channel? : WireEvent → Option Nat
  | refused .. => none
  | opened n .. | sent n .. | received n _ | closed n _ => some n

/-- A payload that was sent or received on the channel numbered `n`. -/
def IsTraffic (n : Nat) : WireEvent → Prop
  | sent m .. | received m _ => m = n
  | _ => False

def opens (n : Nat) : WireEvent → Bool
  | opened m .. => m = n
  | _ => false

def closes (n : Nat) : WireEvent → Bool
  | closed m _ => m = n
  | _ => false

section
variable (n m : Nat) (address id : String)

@[simp] theorem opens_refused : (refused address id).opens n = false := rfl

@[simp] theorem opens_opened : (opened m address id).opens n = decide (m = n) := rfl

@[simp] theorem opens_closed : (closed m address).opens n = false := rfl

@[simp] theorem closes_refused : (refused address id).closes n = false := rfl

@[simp] theorem closes_opened : (opened m address id).closes n = false := rfl

@[simp] theorem closes_closed : (closed m address).closes n = decide (m = n) := rfl

end

section
variable {n : Nat} {e : WireEvent}

theorem IsTraffic.channel? (h : e.IsTraffic n) : e.channel? = some n := by
  cases e with
  | sent | received => exact congrArg some h
  | _ => exact h.elim

theorem IsTraffic.isOpened (h : e.IsTraffic n) : e.isOpened = false := by
  cases e with
  | opened => exact h.elim
  | _ => rfl

theorem IsTraffic.opens (h : e.IsTraffic n) (m : Nat) : e.opens m = false := by
  cases e with
  | opened => exact h.elim
  | _ => rfl

theorem IsTraffic.closes (h : e.IsTraffic n) (m : Nat) : e.closes m = false := by
  cases e with
  | closed => exact h.elim
  | _ => rfl

end

end WireEvent

namespace Session

variable {W : Wire} {α : Type} {n : Nat} {s s' s'' : Session W}

/-- From `s` to `s'` the session only sent and received on the channel numbered `n`. -/
structure Traffic (n : Nat) (s s' : Session W) : Prop extends Steady s s' where
  events : ∃ events, s'.history = events ++ s.history ∧ ∀ e ∈ events, e.IsTraffic n

namespace Traffic

theorem refl (n : Nat) (s : Session W) : Traffic n s s := ⟨.refl s, [], rfl, List.forall_mem_nil _⟩

theorem trans (H : Traffic n s s') (H' : Traffic n s' s'') : Traffic n s s'' := by
  obtain ⟨events, h, he⟩ := H.events
  obtain ⟨events', h', he'⟩ := H'.events
  refine ⟨H.toSteady.trans H'.toSteady, events' ++ events, ?_, fun e hm => ?_⟩
  · rw [h', h, List.append_assoc]
  · rcases List.mem_append.1 hm with hm | hm
    · exact he' e hm
    · exact he e hm

/-- One event on the channel. -/
theorem single (s : Session W) {e : WireEvent} (he : e.IsTraffic n) (w : W.State) (i : Inbox) :
    Traffic n s { s with wire := w, history := e :: s.history, inbox := i } :=
  ⟨⟨rfl, rfl, rfl, rfl, rfl, rfl, rfl⟩, [e], rfl, by simpa using he⟩

/-- What happens on the wire or to the inbox without an event. -/
theorem silent (n : Nat) (s : Session W) (w : W.State) (i : Inbox) :
    Traffic n s { s with wire := w, inbox := i } :=
  ⟨⟨rfl, rfl, rfl, rfl, rfl, rfl, rfl⟩, [], rfl, List.forall_mem_nil _⟩

theorem opened (H : Traffic n s s') : s'.opened = s.opened := by
  obtain ⟨events, h, he⟩ := H.events
  have hnone : events.filter WireEvent.isOpened = [] :=
    List.filter_eq_nil_iff.2 fun e hm => by simp [(he e hm).isOpened]
  rw [Session.opened, Session.opened, h, List.filter_append, hnone, List.nil_append]

end Traffic

theorem Reception.traffic {judge : Payload → Verdict α} {deadline : Nat} {l : Link W}
    {r : Except SessionError (Option α)} (H : Reception judge deadline l s r s') :
    Traffic l.number s s' := by
  induction H with
  | spent => exact .refl _ _
  | failed | silent => exact .silent _ _ _ _
  | @accepted s p w => exact .single s (e := .received l.number p) rfl w s.inbox
  | @parked s p w _ _ _ _ _ _ ih =>
    exact .trans (.single s (e := .received l.number p) rfl w (s.inbox.park p)) ih
  | @dropped s p w _ _ _ _ _ _ ih =>
    exact .trans (.single s (e := .received l.number p) rfl w s.inbox) ih

/-! ## Actions on the open channel -/

/-- The channel that is open, if there is one, is the one numbered `n`. -/
def Uses (s : Session W) (n : Nat) : Prop := ∀ l, s.link = some l → l.number = n

theorem uses_of_link {l : Link W} (h : s.link = some l) : s.Uses l.number := fun _ h' => by
  cases h.symm.trans h'
  rfl

theorem Traffic.uses (H : Traffic n s s') (hn : s.Uses n) : s'.Uses n := fun l hl =>
  hn l (H.link ▸ hl)

theorem send_traffic (hn : s.Uses n) (p : Payload) :
    Ends s (send p) (fun _ s' => Traffic n s s') fun _ s' => Traffic n s s' := by
  refine ends_send (fun _ => .refl n s) (fun l w hl _ => ?_) fun l e w hl _ => ?_
  all_goals
    obtain rfl := hn l hl
    exact .single s (e := .sent l.number l.address p) rfl w s.inbox

theorem receive_traffic (hn : s.Uses n) (judge : Payload → Verdict α) (budget : Nat) :
    Ends s (receive judge budget) (fun _ s' => Traffic n s s') fun _ s' => Traffic n s s' := by
  refine ends_receive (fun _ => .refl n s) (fun l a s' hl H => ?_) fun l e s' hl H => ?_
  all_goals
    obtain rfl := hn l hl
    exact H.traffic

theorem next?_traffic (hn : s.Uses n) (expected : List PayloadKind) (budget : Nat) :
    Ends s (next? expected budget) (fun _ s' => Traffic n s s') fun _ s' => Traffic n s s' :=
  ends_next? (fun _ i _ => .silent n s s.wire i) fun _ => receive_traffic hn _ _

theorem await_traffic (hn : s.Uses n) (expected : List PayloadKind) (budget : Nat)
    (awaited : String) : Ends s (await expected budget awaited) (fun _ s' => Traffic n s s')
      fun _ s' => Traffic n s s' := by
  rw [await, ends_bind]
  refine (next?_traffic hn expected budget).mono (fun a s' h => ?_) fun _ _ h => h
  cases a with
  | none => exact h
  | some p => exact h

/-! ## Numbered sessions -/

/-- The open channel, if there is one, is one of those that the history has opened. -/
def Numbered (s : Session W) : Prop := ∀ l, s.link = some l → l.number < s.opened

theorem Traffic.numbered (H : Traffic n s s') (hs : s.Numbered) : s'.Numbered := by
  intro l hl
  rw [H.opened]
  exact hs l (H.link ▸ hl)

end Session

end Geocast
