import Geocast.Proofs.Session.Numbering

/-! # No broker is dialed twice under one id

A handoff notes the broker that it leaves as visited, and goes on under a new id if it leads to one
of those. So as long as no handoff fails, the addresses that a session dialed under its present id
are the one where it is and those visited, and all others it dialed under shorter ids: this is its
`Itinerary`. Hence whatever redirects the brokers send, and whatever the wall clock says, a session
never dials an address twice under one id (`dials_distinct`). A handoff that fails puts the session
back, and what it dialed on the way is forgotten: it is not where it dialed last (`PutBack`). -/

namespace Geocast

namespace WireEvent

/-- The address that is dialed and the id under which it is, whether it answers or not. -/
def dialed? : WireEvent → Option (String × String)
  | refused address id | opened _ address id => some (address, id)
  | _ => none

theorem IsTraffic.dialed? {n : Nat} {e : WireEvent} (h : e.IsTraffic n) : e.dialed? = none := by
  cases e with
  | refused | opened => exact h.elim
  | _ => rfl

end WireEvent

/-- What events dialed, the newest first. -/
def dials (events : List WireEvent) : List (String × String) := events.filterMap WireEvent.dialed?

theorem dials_append (more events : List WireEvent) :
    dials (more ++ events) = dials more ++ dials events := List.filterMap_append

theorem dials_of_traffic {n : Nat} {events : List WireEvent} (h : ∀ e ∈ events, e.IsTraffic n) :
    dials events = [] :=
  List.filterMap_eq_nil_iff.2 fun e he => (h e he).dialed?

/-- Of what was dialed, the newest first, the newest is `address` under `id`, and nothing was dialed
twice: what was dialed under `id` is where the session is or was, and all else was dialed under
shorter ids. -/
structure Itinerary (made : List (String × String)) (address id : String) (visited : List String) :
    Prop where
  latest : made.head? = some (address, id)
  nodup : made.Nodup
  known : ∀ d ∈ made, d.2 = id ∧ d.1 ∈ address :: visited ∨ d.2.length < id.length

namespace Itinerary

variable {made : List (String × String)} {address id target : String} {visited : List String}

theorem single (address id : String) (visited : List String) :
    Itinerary [(address, id)] address id visited where
  latest := rfl
  nodup := by simp
  known := by simp

theorem mem (H : Itinerary made address id visited) : (address, id) ∈ made :=
  List.mem_of_mem_head? H.latest

/-- To a broker not visited yet the session goes under its id. -/
theorem onward (H : Itinerary made address id visited) (h : target ∉ address :: visited) :
    Itinerary ((target, id) :: made) target id (address :: visited) where
  latest := rfl
  nodup := by
    refine List.nodup_cons.2 ⟨fun hmem => ?_, H.nodup⟩
    rcases H.known _ hmem with ⟨-, hknown⟩ | hlt
    · exact h hknown
    · exact Nat.lt_irrefl _ hlt
  known := by
    refine List.forall_mem_cons.2 ⟨.inl ⟨rfl, List.mem_cons_self⟩, fun d hd => ?_⟩
    exact (H.known d hd).imp_left fun ⟨hid, hknown⟩ => ⟨hid, List.mem_cons_of_mem _ hknown⟩

/-- Under a longer id nothing was dialed yet. -/
theorem anew (H : Itinerary made address id visited) {id' : String} (h : id.length < id'.length) :
    Itinerary ((target, id') :: made) target id' [] where
  latest := rfl
  nodup := by
    refine List.nodup_cons.2 ⟨fun hmem => ?_, H.nodup⟩
    rcases H.known _ hmem with ⟨rfl, -⟩ | hlt
    · exact Nat.lt_irrefl _ h
    · exact Nat.lt_asymm h hlt
  known := by
    refine List.forall_mem_cons.2 ⟨.inl ⟨rfl, List.mem_cons_self⟩, fun d hd => .inr ?_⟩
    rcases H.known d hd with ⟨rfl, -⟩ | hlt
    · exact h
    · exact Nat.lt_trans hlt h

end Itinerary

/-- Errors by which a chain of redirects fails. -/
def SessionError.isHandoff : SessionError → Bool
  | handoffFailed .. | tooManyRedirects _ => true
  | _ => false

namespace Session

variable {W : Wire} {o s s' : Session W} {n : Nat}

/-- Since `o`, the session dialed nothing twice. -/
def Distinct (o s : Session W) : Prop :=
  ∃ events, s.history = events ++ o.history ∧ (dials events).Nodup

/-- Since `o`, the session came to where it is by its itinerary. -/
def Roaming (o s : Session W) : Prop :=
  ∃ events, s.history = events ++ o.history ∧ Itinerary (dials events) s.address s.id s.visited

/-- The session is not where it dialed last: a handoff failed and put it back. -/
def PutBack (s : Session W) : Prop := (dials s.history).head? ≠ some (s.address, s.id)

theorem Roaming.distinct (H : Roaming o s) : Distinct o s :=
  H.imp fun _ h => ⟨h.1, h.2.nodup⟩

/-- The session went on at the same broker under the same id, and dialed nothing. -/
structure Silent (s s' : Session W) : Prop where
  address : s'.address = s.address
  id : s'.id = s.id
  visited : s'.visited = s.visited
  events : ∃ more, s'.history = more ++ s.history ∧ dials more = []

namespace Silent

theorem dials (H : Silent s s') : dials s'.history = dials s.history := by
  obtain ⟨more, hhistory, hmore⟩ := H.events
  rw [hhistory, dials_append, hmore, List.nil_append]

theorem roaming (H : Silent s s') (hs : Roaming o s) : Roaming o s' := by
  obtain ⟨more, hhistory, hmore⟩ := H.events
  obtain ⟨events, hevents, hs⟩ := hs
  refine ⟨more ++ events, by rw [hhistory, hevents, List.append_assoc], ?_⟩
  rwa [dials_append, hmore, List.nil_append, H.address, H.id, H.visited]

theorem distinct (H : Silent s s') (hs : Distinct o s) : Distinct o s' := by
  obtain ⟨more, hhistory, hmore⟩ := H.events
  obtain ⟨events, hevents, hs⟩ := hs
  refine ⟨more ++ events, by rw [hhistory, hevents, List.append_assoc], ?_⟩
  rwa [dials_append, hmore, List.nil_append]

theorem putBack (H : Silent s s') (hs : s.PutBack) : s'.PutBack := by
  rwa [PutBack, H.dials, H.address, H.id]

end Silent

theorem Traffic.silent_dials (H : Traffic n s s') : Silent s s' where
  address := H.address
  id := H.id
  visited := H.visited
  events := H.events.imp fun _ h => ⟨h.1, dials_of_traffic h.2⟩

theorem silent_closed (s : Session W) : Silent s s.closed := by
  unfold closed
  split
  · exact ⟨rfl, rfl, rfl, [_], rfl, rfl⟩
  · exact ⟨rfl, rfl, rfl, [], rfl, rfl⟩

theorem silent_movedFrom (s origin : Session W) : Silent s (s.movedFrom origin) := by
  unfold movedFrom
  split
  · exact ⟨rfl, rfl, rfl, [_], rfl, rfl⟩
  · exact ⟨rfl, rfl, rfl, [], rfl, rfl⟩

/-! ## Handing off -/

theorem Silent.history (H : Silent s s') : s.history <:+ s'.history := by
  obtain ⟨more, hhistory, -⟩ := H.events
  exact ⟨more, hhistory.symm⟩

/-- The session on its new channel, when that of the hop before is closed. -/
theorem silent_hopped (s : Session W) (l : Link W) (address : String) :
    Silent { s with address := address } { s.closed with link := some l, address := address } := by
  unfold closed
  split
  · exact ⟨rfl, rfl, rfl, [_], rfl, rfl⟩
  · exact ⟨rfl, rfl, rfl, [], rfl, rfl⟩

/-- A hop dials what was not dialed before. -/
theorem itinerary_left {made : List (String × String)} (H : Itinerary made s.address s.id s.visited)
    (target : BrokerInfo) : Itinerary ((target.address, (s.left target).id) :: made) target.address
      (s.left target).id (s.left target).visited := by
  unfold left
  split
  · exact H.anew (length_minted _ _)
  · next h => exact H.onward h

theorem handoff_roaming (H : Roaming o s) (target : BrokerInfo) : Ends s (handoff target)
    (fun _ s' => Roaming o s' ∧ s.history <:+ s'.history)
    fun _ s' => Distinct o s' ∧ s.history <:+ s'.history := by
  obtain ⟨events, hhistory, hdials⟩ := H
  rw [← left_history s target] at hhistory ⊢
  have hleft := itinerary_left hdials target
  simp only [handoff, ends_bind, ends_leave, ends_inHandoff, ends_closeChannel, ends_modify]
  refine ends_dial (fun c w _ => ?_) fun e w _ => ?_
  · have hroaming : Roaming o { s.left target with
        wire := w, address := target.address
        history := .opened (s.left target).opened target.address (s.left target).id ::
          (s.left target).history } :=
      ⟨.opened _ _ _ :: events, congrArg _ hhistory, hleft⟩
    have hhopped := silent_hopped { s.left target with
      wire := w
      history := .opened (s.left target).opened target.address (s.left target).id ::
        (s.left target).history } ⟨c, (s.left target).opened, target.address⟩ target.address
    have hsuffix := (List.suffix_cons _ _).trans hhopped.history
    refine (register_traffic (uses_of_link (by rfl))).mono (fun _ s₁ h => ?_) fun _ s₁ h => ?_
    · have h := h.silent_dials
      exact ⟨h.roaming (hhopped.roaming hroaming), hsuffix.trans h.history⟩
    · have h := h.silent_dials
      exact ⟨h.distinct (hhopped.distinct hroaming.distinct), hsuffix.trans h.history⟩
  · exact ⟨⟨.refused _ _ :: events, congrArg _ hhistory, hleft.nodup⟩, List.suffix_cons _ _⟩

theorem hopUntilAccepted_roaming (limit hops : Nat) (target : BrokerInfo) (H : Roaming o s) :
    Ends s (hopUntilAccepted limit hops target) (fun _ s' => Roaming o s')
      fun _ s' => Distinct o s' ∧ s.history <:+ s'.history := by
  induction hops generalizing target s with
  | zero => exact ⟨H.distinct, List.suffix_rfl⟩
  | succ hops ih =>
    simp only [hopUntilAccepted, ends_bind]
    refine (handoff_roaming H target).mono (fun a s' h => ?_) fun _ _ h => h
    cases a with
    | accepted => exact h.1
    | redirected next => exact (ih next h.1).mono (fun _ _ h' => h') fun _ _ h' =>
        ⟨h'.1, h.2.trans h'.2⟩

/-- What a chain of redirects dialed before it failed is none of what was dialed before. So a
session that is put back either dialed nothing or is not where it dialed last. -/
theorem roaming_or_putBack (H : Roaming o s) (h : Distinct o s')
    (hhistory : s.history <:+ s'.history) (haddress : s'.address = s.address) (hid : s'.id = s.id)
    (hvisited : s'.visited = s.visited) :
    Roaming o s' ∨ s'.PutBack := by
  obtain ⟨events, hevents, hdials⟩ := H
  obtain ⟨all, hall, hnodup⟩ := h
  obtain ⟨more, hmore⟩ := hhistory
  obtain rfl : all = more ++ events := by
    rw [hevents, ← List.append_assoc] at hmore
    exact (List.append_cancel_right (hmore.trans hall)).symm
  rw [dials_append] at hnodup
  cases hd : dials more with
  | nil => exact .inl ⟨_, hall, by rwa [dials_append, hd, haddress, hid, hvisited]⟩
  | cons d rest =>
    refine .inr fun hhead => ?_
    rw [hall, dials_append, dials_append, hd, haddress, hid] at hhead
    cases hhead
    rw [hd] at hnodup
    exact (List.nodup_append.1 hnodup).2.2 _ List.mem_cons_self _ hdials.mem rfl

/-! ## Operations -/

/-- How an operation that fails leaves a session that was roaming: it roams still, or a handoff
failed and put it back. -/
def Faltered (o : Session W) (e : SessionError) (s : Session W) : Prop :=
  Roaming o s ∨ e.isHandoff ∧ s.PutBack ∧ Distinct o s

theorem Silent.faltered {e : SessionError} (H : Silent s s') (hs : Faltered o e s) :
    Faltered o e s' :=
  hs.imp H.roaming fun ⟨he, hback, hdistinct⟩ => ⟨he, H.putBack hback, H.distinct hdistinct⟩

theorem followRedirects_roaming (target : BrokerInfo) :
    Keeps (W := W) (Roaming o) (Faltered o) (followRedirects target) := by
  intro s hs
  rw [ends_followRedirects]
  refine ((hopUntilAccepted_roaming _ _ target (s := { s with link := none, inbox := .empty })
    hs).and (hopUntilAccepted_error _ _ _ _)).mono (fun _ s' h => ?_) fun e s' h => ?_
  · exact (silent_movedFrom s' s).roaming h.1
  · obtain ⟨⟨hdistinct, hhistory⟩, he⟩ := h
    have hclosed := silent_closed s'
    have hdistinct := hclosed.distinct hdistinct
    refine Or.imp_right (fun hback => ⟨?_, hback, hdistinct⟩) ?_
    · obtain rfl | ⟨_, _, rfl⟩ := he <;> rfl
    · exact roaming_or_putBack hs hdistinct (hhistory.trans hclosed.history) rfl rfl rfl

/-- A session that connects begins a new itinerary. -/
theorem connect_roaming (address : String) (s : Session W) :
    Ends s (connect address) (fun _ s' => Roaming s s') (Faltered s) := by
  obtain ⟨-, -, -, more, hhistory, hmore⟩ := silent_closed s
  have hbegun {e : WireEvent} (he : e.dialed? = some (address, s.closed.id)) :
      ∃ events, e :: s.closed.history = events ++ s.history ∧
        Itinerary (dials events) address s.closed.id [] := by
    refine ⟨e :: more, congrArg _ hhistory, ?_⟩
    have hdials : dials (e :: more) = [(address, s.closed.id)] := by
      rw [dials, List.filterMap_cons_some he]
      exact congrArg _ hmore
    exact hdials ▸ .single _ _ _
  exact ends_connect_of_traffic (fun c w s₁ h => h.silent_dials.roaming (hbegun rfl))
    (fun target s₁ hs₁ => (followRedirects_roaming target s₁ hs₁).mono (fun _ _ h => h)
      fun _ s₂ h => (silent_closed s₂).faltered h)
    (fun _ s₁ hs₁ => .inl ((silent_closed s₁).roaming hs₁)) fun e w => .inl (hbegun rfl)

theorem roaming_keeps : StandingKeep (W := W) (Roaming o) (Faltered o) where
  followRedirects := followRedirects_roaming
  send p s hs := by
    obtain ⟨n, hn⟩ := s.exists_uses
    exact (send_traffic hn p).mono (fun _ _ h => h.silent_dials.roaming hs)
      fun _ _ h => .inl (h.silent_dials.roaming hs)
  next? expected budget s hs := by
    obtain ⟨n, hn⟩ := s.exists_uses
    exact (next?_traffic hn expected budget).mono (fun _ _ h => h.silent_dials.roaming hs)
      fun _ _ h => .inl (h.silent_dials.roaming hs)
  listen action id budget s hs := by
    obtain ⟨n, hn⟩ := s.exists_uses
    exact (listen_traffic hn action id budget).mono (fun _ _ h => h.silent_dials.roaming hs)
      fun _ _ h => .inl (h.silent_dials.roaming hs)
  closed s hs := (silent_closed s).roaming hs
  noted _ hs _ _ := hs
  failed _ hs _ := .inl hs

/-! ## Runs -/

/-- An action fails because a handoff does: its error is that of a chain of redirects, and it leaves
the session put back to where the chain began. -/
def HandoffFails {α : Type} (s : Session W) (x : Action W α) : Prop :=
  ∃ e s', exec x s = (.error e, s') ∧ e.isHandoff ∧ s'.PutBack

/-- No operation of a run fails because a handoff does. -/
def Unhindered (s : Session W) : List Operation → Prop
  | [] => True
  | op :: ops => ¬ s.HandoffFails op.perform ∧ (exec op.perform s).2.Unhindered ops

theorem roaming_of_ends {α : Type} {x : Action W α} (h : ¬ s.HandoffFails x)
    (H : Ends s x (fun _ s' => Roaming o s') (Faltered o)) : Roaming o (exec x s).2 := by
  rcases hr : exec x s with ⟨e | a, s'⟩
  · obtain hs' | ⟨he, hback, -⟩ := H.error hr
    · exact hs'
    · exact absurd ⟨e, s', hr, he, hback⟩ h
  · exact H.ok hr

theorem roaming_after {ops : List Operation} (hops : ∀ op ∈ ops, op.InSession) (hs : Roaming o s)
    (h : s.Unhindered ops) : Roaming o (s.after ops) := by
  induction ops generalizing s with
  | nil => exact hs
  | cons op ops ih =>
    obtain ⟨hop, hops⟩ := List.forall_mem_cons.1 hops
    exact ih hops (roaming_of_ends h.1 (roaming_keeps.operation op hop s hs)) h.2

/-- On every wire, whatever its wall clock says and wherever brokers redirect to, a session that
connects, and after that neither connects nor disconnects, dials no address twice under the same id,
as long as no handoff fails. -/
theorem dials_distinct {s : Session W} {address : String} {ops : List Operation}
    (hops : ∀ op ∈ ops, op.InSession) (h : s.Unhindered (.connect address :: ops)) :
    ∃ events, (s.after (.connect address :: ops)).history = events ++ s.history ∧
      (dials events).Nodup :=
  (roaming_after hops (roaming_of_ends h.1 (connect_roaming address s)) h.2).distinct

/-- A session that the brokers "A" and "B" send to each other, and "A" later to itself. -/
def circling : Session Script.wire :=
  start "c" none ⟨100, 100, 100, 3⟩ (Script.start [] (Table.insert (Table.insert ∅
    "a:1" [.deliver [(0, .payload (.connAck .success))],
      .deliver [(0, .payload (.disconnect .wrongBroker (some ⟨"B", "b:1"⟩)))],
      .deliver [(0, .payload (.connAck .success))],
      .deliver [(0, .payload (.disconnect .wrongBroker (some ⟨"A", "a:1"⟩)))],
      .deliver [(0, .payload (.connAck .success))]])
    "b:1" [.deliver [(0, .payload (.disconnect .wrongBroker (some ⟨"A", "a:1"⟩)))]]) 7)

/-- Both ways it comes back to "A" under a new id. -/
theorem circling_distinct :
    let ops : List Operation :=
      [.request (.updateLocation ⟨0, 0⟩), .request (.updateLocation ⟨0, 0⟩)]
    (∀ op ∈ ops, op.InSession) ∧ circling.Unhindered (.connect "a:1" :: ops) ∧
    dials (circling.after (.connect "a:1" :: ops)).history =
      [("a:1", "c-7-7"), ("a:1", "c-7"), ("b:1", "c"), ("a:1", "c")] ∧
    ∃ events, (circling.after (.connect "a:1" :: ops)).history = events ++ circling.history ∧
      (dials events).Nodup := by
  intro ops
  have hok {α : Type} {s : Session Script.wire} {x : Action Script.wire α}
      (h : (exec x s).1.toOption.isSome) : ¬ s.HandoffFails x := by
    rintro ⟨e, s', he, -⟩
    rw [he] at h
    exact nomatch h
  have hops : ∀ op ∈ ops, op.InSession := by decide
  have h : circling.Unhindered (.connect "a:1" :: ops) :=
    ⟨hok (by decide +kernel), hok (by decide +kernel), hok (by decide +kernel), trivial⟩
  exact ⟨hops, h, by decide +kernel, dials_distinct hops h⟩

end Session

end Geocast
