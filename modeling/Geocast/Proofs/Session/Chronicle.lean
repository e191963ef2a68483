import Geocast.Proofs.Session.Roaming

/-! # What the history of a session tells

A session calls brokers under its present id only, and the ids that it makes begin with the one
before. So a property of histories that every event keeps, a call only under an id with a property
that new ids have as well, holds after every operation, whether it succeeds or fails
(`chronicle_keeps`). So histories only grow (`chronicle_grown`), and all ids under which a session
ever calls begin with the first one (`chronicle_named`). -/

namespace Geocast

namespace Session

variable {W : Wire} {α : Type} {I : String → Prop} {H : List WireEvent → Prop} {s s' : Session W}

/-- What holds of ids and of histories, however a session goes on. -/
structure Chronicle (I : String → Prop) (H : List WireEvent → Prop) : Prop where
  minted : ∀ id time, I id → I (id ++ "-" ++ toString (time : Nat))
  event : ∀ e events, H events → (∀ c, e.dialed? = some c → I c.2) → H (e :: events)

/-- The session has such an id and such a history. -/
def Keeping (I : String → Prop) (H : List WireEvent → Prop) (s : Session W) : Prop :=
  I s.id ∧ H s.history

namespace Chronicle

variable (h : Chronicle I H)
include h

theorem silent {more events : List WireEvent} (hmore : dials more = []) (hH : H events) :
    H (more ++ events) := by
  have hnone : ∀ e ∈ more, e.dialed? = none := List.filterMap_eq_nil_iff.1 hmore
  induction more with
  | nil => exact hH
  | cons e more ih =>
    obtain ⟨he, hnone⟩ := List.forall_mem_cons.1 hnone
    exact h.event e _ (ih (List.filterMap_eq_nil_iff.2 hnone) hnone) fun c hc =>
      nomatch he.symm.trans hc

/-- On a stretch without calls nothing changes. -/
theorem of_silent (hsilent : Silent s s') (hs : Keeping I H s) : Keeping I H s' := by
  obtain ⟨more, hhistory, hmore⟩ := hsilent.events
  exact ⟨hsilent.id ▸ hs.1, hhistory ▸ h.silent hmore hs.2⟩

theorem left (hs : Keeping I H s) (target : BrokerInfo) : Keeping I H (s.left target) := by
  unfold Session.left
  split
  · exact ⟨h.minted _ _ hs.1, hs.2⟩
  · exact hs

/-- A call under the present id. -/
theorem dialed (hs : Keeping I H s) {e : WireEvent} {address : String}
    (he : e.dialed? = some (address, s.id)) : H (e :: s.history) :=
  h.event e _ hs.2 fun c hc => by
    cases he.symm.trans hc
    exact hs.1

theorem handoff (target : BrokerInfo) :
    Keeps (W := W) (Keeping I H) (fun _ => Keeping I H) (handoff target) := by
  intro s hs
  simp only [Session.handoff, ends_bind, ends_leave, ends_inHandoff, ends_closeChannel, ends_modify]
  have hleft : Keeping I H (s.left target) := h.left hs target
  refine ends_dial (fun c w _ => ?_) fun e w _ => ⟨hleft.1, h.dialed hleft rfl⟩
  have hopened : Keeping I H { s.left target with
      wire := w, address := target.address
      history := .opened (s.left target).opened target.address (s.left target).id ::
        (s.left target).history } := ⟨hleft.1, h.dialed hleft rfl⟩
  have hhopped := h.of_silent (silent_hopped { s.left target with
    wire := w
    history := .opened (s.left target).opened target.address (s.left target).id ::
      (s.left target).history } ⟨c, (s.left target).opened, target.address⟩ target.address) hopened
  exact (register_traffic (uses_of_link (by rfl))).mono
    (fun _ _ h' => h.of_silent h'.silent_dials hhopped)
    fun _ _ h' => h.of_silent h'.silent_dials hhopped

theorem hopUntilAccepted (limit hops : Nat) (target : BrokerInfo) :
    Keeps (W := W) (Keeping I H) (fun _ => Keeping I H) (hopUntilAccepted limit hops target) :=
  hopUntilAccepted_keeps h.handoff (fun _ hs => hs) hops target

theorem followRedirects (target : BrokerInfo) :
    Keeps (W := W) (Keeping I H) (fun _ => Keeping I H) (followRedirects target) := by
  intro s hs
  rw [ends_followRedirects]
  refine (h.hopUntilAccepted _ _ target { s with link := none, inbox := .empty } hs).mono
    (fun _ s' h' => h.of_silent (silent_movedFrom s' s) h') fun _ s' h' => ?_
  exact ⟨hs.1, (h.of_silent (silent_closed s') h').2⟩

theorem connect (address : String) :
    Keeps (W := W) (Keeping I H) (fun _ => Keeping I H) (connect address) := by
  intro s hs
  have hclosed {s : Session W} (hs : Keeping I H s) : Keeping I H s.closed :=
    h.of_silent (silent_closed s) hs
  exact ends_connect_of_traffic
    (fun c w s₁ h' => h.of_silent h'.silent_dials ⟨(hclosed hs).1, h.dialed (hclosed hs) rfl⟩)
    (fun target s₁ hs₁ => (h.followRedirects target s₁ hs₁).mono (fun _ _ h' => h')
      fun _ _ h' => hclosed h')
    (fun _ _ h' => hclosed h') fun e w => ⟨(hclosed hs).1, h.dialed (hclosed hs) rfl⟩

end Chronicle

/-- What a chronicle says, every operation keeps. -/
theorem chronicle_keeps (h : Chronicle I H) : PartsKeep (W := W) (Keeping I H) :=
  .of_traffic (fun s hs => s.exists_uses.imp fun _ hn => ⟨hn, fun _ h' =>
      h.of_silent h'.silent_dials hs⟩)
    h.connect h.followRedirects (fun s hs => h.of_silent (silent_closed s) hs) fun _ hs _ _ _ => hs

/-- An action that only adds to the history. -/
def Grows (x : Action W α) : Prop := ∀ s : Session W,
  Ends s x (fun _ s' => s.history <:+ s'.history) fun _ s' => s.history <:+ s'.history

/-- Nothing of a history is ever lost. -/
theorem chronicle_grown (events : List WireEvent) :
    Chronicle (fun _ => True) fun later => events <:+ later where
  minted _ _ _ := trivial
  event e _ hlater _ := hlater.trans (List.suffix_cons e _)

theorem grows_of_keeps {x : Action W α} (h : ∀ events : List WireEvent,
    Keeps (Keeping (fun _ => True) (events <:+ ·)) (fun _ => Keeping (fun _ => True) (events <:+ ·))
      x) : Grows x := fun s =>
  (h s.history s ⟨trivial, List.suffix_rfl⟩).mono (fun _ _ h => h.2) fun _ _ h => h.2

theorem register_grows : Grows (W := W) register := fun s => by
  obtain ⟨n, hn⟩ := s.exists_uses
  exact (register_traffic hn).mono (fun _ _ h => h.silent_dials.history)
    fun _ _ h => h.silent_dials.history

/-- The ids of a client all begin with the first. -/
theorem chronicle_named (name : List Char) : Chronicle (fun id => name <+: id.toList)
    fun events => ∀ c ∈ dials events, name <+: c.2.toList where
  minted id time hid := by
    rw [String.toList_append, String.toList_append, List.append_assoc]
    exact hid.trans (List.prefix_append _ _)
  event e events hevents he c hc := by
    obtain ⟨e', he', hdialed⟩ := List.mem_filterMap.1 hc
    rcases List.mem_cons.1 he' with rfl | he'
    · exact he c hdialed
    · exact hevents c (List.mem_filterMap.2 ⟨e', he', hdialed⟩)

end Session

end Geocast
