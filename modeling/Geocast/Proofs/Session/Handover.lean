import Geocast.Proofs.Session.Consistency
import Geocast.Proofs.Session.Roaming
import Mathlib.Data.List.Chain

/-! # Where a handover leads

A location update that hands the session over reports the first broker of a chain of redirects, but
the session is at the last one, wherever that is (`handedOff_route`). The brokers on the way are
known from the history: each was dialed and sent the session on to the next (`Route`). So the report
is right if and only if the chain ends at the address where it began, as a chain of one hop does. -/

namespace Geocast

/-- The channels of a chain of redirects, each with the broker that it was opened to, the first one
first: the events dialed these and no others, and on each but the last the broker sent the client on
to the next. -/
structure Route (hops : List (Nat × BrokerInfo)) (events : List WireEvent) : Prop where
  dialed : (dials events).map Prod.fst = (hops.map fun h => h.2.address).reverse
  opened : ∀ h ∈ hops, ∃ id, .opened h.1 h.2.address id ∈ events
  redirected : hops.IsChain fun h h' =>
    .received h.1 (.disconnect .wrongBroker (some h'.2)) ∈ events

namespace Route

variable {hop hop' : Nat × BrokerInfo} {hops : List (Nat × BrokerInfo)}
  {events more later : List WireEvent} {id : String}

theorem single (hdials : dials events = [(hop.2.address, id)])
    (hopened : .opened hop.1 hop.2.address id ∈ events) : Route [hop] events where
  dialed := by rw [hdials]; rfl
  opened h hh := by
    cases List.mem_singleton.1 hh
    exact ⟨id, hopened⟩
  redirected := .singleton hop

/-- A chain may begin one broker earlier, if that one sent the client on to the next. -/
theorem cons (H : Route (hop' :: hops) later) (hdials : dials events = [(hop.2.address, id)])
    (hopened : .opened hop.1 hop.2.address id ∈ events)
    (hsent : .received hop.1 (.disconnect .wrongBroker (some hop'.2)) ∈ events) :
    Route (hop :: hop' :: hops) (later ++ events) where
  dialed := by
    rw [dials_append, List.map_append, H.dialed, hdials]
    simp
  opened := by
    refine List.forall_mem_cons.2 ⟨⟨id, List.mem_append_right later hopened⟩, fun h hh => ?_⟩
    obtain ⟨id', hopened'⟩ := H.opened h hh
    exact ⟨id', List.mem_append_left events hopened'⟩
  redirected := by
    refine .cons_cons (List.mem_append_right later hsent) (H.redirected.imp fun _ _ h => ?_)
    exact List.mem_append_left events h

/-- What was done before and after without dialing. -/
theorem extend (H : Route hops events) (hlater : dials later = []) (hmore : dials more = []) :
    Route hops (later ++ events ++ more) where
  dialed := by
    rw [dials_append, dials_append, hlater, hmore, List.nil_append, List.append_nil, H.dialed]
  opened h hh := (H.opened h hh).imp fun _ hopened =>
    List.mem_append_left more (List.mem_append_right later hopened)
  redirected := H.redirected.imp fun _ _ h =>
    List.mem_append_left more (List.mem_append_right later h)

end Route

namespace Session

variable {W : Wire} {o s s' : Session W} {l : Link W}

/-! ## One hop -/

theorem registration_redirected {p : Payload} {target : BrokerInfo}
    (h : registration p = .ok (.redirected target)) :
    p = .disconnect .wrongBroker (some target) := by
  unfold registration at h
  split at h
  · cases h
  · cases h
    rfl
  · cases h
  · cases h

/-- What the client read on the channel of `l`, when its registration was answered by `a`. -/
def Replied (l : Link W) (a : Registration) (events : List WireEvent) : Prop :=
  ∃ p, registration p = .ok a ∧ .received l.number p ∈ events

/-- A registration is answered by what comes in on its channel. -/
theorem registerRetrying_comes (retries : Nat) (hl : s.link = some l)
    (hs : ∀ p ∈ s.inbox.contents, p.kind ∉ registrationReplies) :
    Ends s (registerRetrying retries) (fun a s' => Traffic l.number s s' ∧
      ∃ events, s'.history = events ++ s.history ∧ Replied l a events) fun _ _ => True := by
  have hend {s s' : Session W} {p : Payload} {between : List WireEvent} {e : WireEvent}
      (hs' : Traffic l.number s s')
      (h : s'.history = .received l.number p :: (between ++ e :: s.history)) :
      Ends s' (ofOutcome (registration p)) (fun a s' => Traffic l.number s s' ∧
        ∃ events, s'.history = events ++ s.history ∧ Replied l a events) fun _ _ => True := by
    rw [ends_ofOutcome]
    split
    · next a ha =>
      refine ⟨hs', .received l.number p :: (between ++ [e]), ?_, p, ha, List.mem_cons_self⟩
      rw [h, List.cons_append, List.append_assoc]
      rfl
    · exact trivial
  induction retries generalizing s with
  | zero =>
    rw [registerRetrying, ends_bind]
    refine (askToRegister_comes hl hs).mono (fun p s' h => ?_) fun _ _ h => h
    obtain ⟨-, ht, -, between, hhistory, -⟩ := h
    exact hend ht hhistory
  | succ retries ih =>
    rw [registerRetrying, ends_bind]
    refine (askToRegister_comes hl hs).mono (fun p s₁ h => ?_) fun _ _ h => h
    obtain ⟨-, ht, hs₁, between, hcame, -⟩ := h
    split
    · refine (ih (ht.link.trans hl) hs₁).mono (fun a s₂ h => ?_) fun _ _ h => h
      obtain ⟨ht', events, hhistory, p, ha, hp⟩ := h
      obtain ⟨more, hmore, -⟩ := ht.events
      refine ⟨ht.trans ht', events ++ more, ?_, p, ha, List.mem_append_left more hp⟩
      rw [hhistory, hmore, List.append_assoc]
    · exact hend ht hcame

/-- From `o` the session opened a channel to the broker of `hop`, which answered its registration
by `a`, and dialed nothing else. -/
structure Hopped (hop : Nat × BrokerInfo) (a : Registration) (events : List WireEvent)
    (o s : Session W) : Prop where
  history : s.history = events ++ o.history
  dialed : ∃ id, dials events = [(hop.2.address, id)] ∧
    .opened hop.1 hop.2.address id ∈ events
  replied : ∃ l, s.link = some l ∧ l.number = hop.1 ∧ l.address = hop.2.address ∧
    Replied l a events
  address : s.address = hop.2.address

theorem handoff_hops (target : BrokerInfo) (s : Session W) : Ends s (handoff target)
    (fun a s' => ∃ n events, Hopped (n, target) a events s s') fun _ _ => True := by
  simp only [handoff, ends_bind, ends_leave, ends_inHandoff, ends_closeChannel, ends_modify]
  refine ends_dial (fun c w _ => ?_) fun _ _ _ => trivial
  obtain ⟨closing, hclosing, hclosed⟩ :=
    (silent_closed ((s.left target).dialed target.address w)).events
  have hempty : ((s.left target).dialed target.address w).closed.inbox.contents = [] := by
    rw [closed_inbox]
    rfl
  refine (registerRetrying_comes 1 (by rfl) fun p hp => ?_).mono (fun a s' h => ?_)
    fun _ _ _ => trivial
  · change p ∈ ((s.left target).dialed target.address w).closed.inbox.contents at hp
    rw [hempty] at hp
    cases hp
  · obtain ⟨ht, events, hhistory, p, ha, hp⟩ := h
    obtain ⟨more, hmore, hdials⟩ := ht.silent_dials.events
    obtain rfl : events = more := List.append_cancel_right (hhistory.symm.trans hmore)
    refine ⟨_, events ++ closing ++ [.opened (s.left target).opened target.address
      (s.left target).id], ?_, ⟨(s.left target).id, ?_, by simp⟩, ⟨_, ht.link, rfl, rfl, p, ha, ?_⟩,
      ht.address⟩
    · refine hhistory.trans ((congrArg (events ++ ·) hclosing).trans ?_)
      rw [dialed, left_history, List.append_assoc, List.append_assoc]
      rfl
    · rw [dials_append, dials_append, hdials, hclosed]
      rfl
    · exact List.mem_append_left _ (List.mem_append_left _ hp)

/-! ## The whole chain -/

/-- From `o` the session followed a chain of redirects along `hops` and is registered at the broker
where it ends. -/
structure Followed (hops : List (Nat × BrokerInfo)) (events : List WireEvent) (o s : Session W) :
    Prop where
  history : s.history = events ++ o.history
  route : Route hops events
  arrived : ∃ last l, hops.getLast? = some last ∧ s.link = some l ∧ l.number = last.1 ∧
    l.address = last.2.address ∧ s.address = last.2.address ∧
    .received last.1 (.connAck .success) ∈ events

theorem hopUntilAccepted_follows (limit hops : Nat) (target : BrokerInfo) (s : Session W) :
    Ends s (hopUntilAccepted limit hops target) (fun _ s' => ∃ n rest events,
      rest.length < hops ∧ Followed ((n, target) :: rest) events s s') fun _ _ => True := by
  induction hops generalizing target s with
  | zero => exact trivial
  | succ hops ih =>
    simp only [hopUntilAccepted, ends_bind]
    refine (handoff_hops target s).mono (fun a s₁ h => ?_) fun _ _ _ => trivial
    obtain ⟨n, events, h⟩ := h
    obtain ⟨id, hdials, hopened⟩ := h.dialed
    obtain ⟨l, hl, hnumber, haddress, p, ha, hp⟩ := h.replied
    rw [hnumber] at hp
    cases a with
    | accepted =>
      cases registration_accepted ha
      exact ⟨n, [], events, Nat.succ_pos _, h.history, .single hdials hopened, (n, target), l, rfl,
        hl, hnumber, haddress, h.address, hp⟩
    | redirected next =>
      cases registration_redirected ha
      refine (ih next s₁).mono (fun _ s₂ h₂ => ?_) fun _ _ _ => trivial
      obtain ⟨n', rest, later, hlength, h₂⟩ := h₂
      obtain ⟨last, l', hlast, hl', hnumber', haddress', hsession, haccepted⟩ := h₂.arrived
      refine ⟨n, (n', next) :: rest, later ++ events, Nat.succ_lt_succ hlength, ?_,
        h₂.route.cons hdials hopened hp, last, l', ?_, hl', hnumber', haddress', hsession,
        List.mem_append_left events haccepted⟩
      · rw [h₂.history, h.history, List.append_assoc]
      · rw [List.getLast?_cons_cons, hlast]

theorem followRedirects_follows (target : BrokerInfo) (s : Session W) :
    Ends s (followRedirects target) (fun _ s' => ∃ n rest events,
      rest.length < s.options.maxHandoffHops ∧ Followed ((n, target) :: rest) events s s')
      fun _ _ => True := by
  rw [ends_followRedirects]
  refine (hopUntilAccepted_follows _ _ target _).mono (fun _ s₁ h => ?_) fun _ _ _ => trivial
  obtain ⟨n, rest, events, hlength, h⟩ := h
  have hmoved := silent_movedFrom s₁ s
  obtain ⟨closing, hclosing, hdials⟩ := hmoved.events
  obtain ⟨last, l, hlast, hl, hnumber, haddress, hsession, haccepted⟩ := h.arrived
  refine ⟨n, rest, closing ++ events, hlength, ?_, ?_, last, l, hlast, ?_, hnumber, haddress,
    hmoved.address.trans hsession, List.mem_append_right closing haccepted⟩
  · rw [hclosing, h.history, List.append_assoc]
  · have hroute := h.route.extend hdials (show dials [] = [] from rfl)
    rwa [List.append_nil] at hroute
  · rw [movedFrom_link, hl]

/-- What the session did before, without dialing, is no part of the chain. -/
theorem Followed.after_silent {hops : List (Nat × BrokerInfo)} {events : List WireEvent}
    (H : Followed hops events s s') (h : Silent o s) :
    ∃ more, Followed hops (events ++ more) o s' := by
  obtain ⟨more, hmore, hdials⟩ := h.events
  obtain ⟨last, l, hlast, hl, hnumber, haddress, hsession, haccepted⟩ := H.arrived
  refine ⟨more, ?_, H.route.extend (show dials [] = [] from rfl) hdials, last, l, hlast, hl,
    hnumber, haddress, hsession, List.mem_append_left more haccepted⟩
  rw [H.history, hmore, List.append_assoc]

/-- A location update reports the broker where the chain of redirects begins. -/
theorem updateLocation_follows (location : Location) (s : Session W) :
    Ends s (updateLocation location) (fun a s' => ∀ info, a = .handedOff info → ∃ n rest events,
      rest.length < s.options.maxHandoffHops ∧ Followed ((n, info) :: rest) events s s')
      fun _ _ => True := by
  obtain ⟨n, hn⟩ := s.exists_uses
  rw [updateLocation_eq, ends_bind]
  refine (ask_traffic hn _).mono (fun p s₁ h => ?_) fun _ _ _ => trivial
  cases p with
  | pingResp reason =>
    cases reason with
    | locationUpdated | notConnectedOrNoLocation => exact fun _ h => by cases h
    | _ => exact trivial
  | disconnect reason target =>
    cases reason with
    | wrongBroker =>
      cases target with
      | none =>
        simp only [Request.conclude, moveTo, ends_bind, ends_modify, ends_closeChannel, ends_throw]
      | some target =>
        simp only [Request.conclude, moveTo, ends_bind, ends_modify, ends_pure]
        refine (followRedirects_follows target _).mono (fun _ s₂ h₂ info hinfo => ?_)
          fun _ _ _ => trivial
        cases hinfo
        obtain ⟨n', rest, events, hlength, h₂⟩ := h₂
        obtain ⟨haddress, hid, hvisited, hevents⟩ := h.silent_dials
        obtain ⟨more, h₂⟩ := h₂.after_silent (o := s) ⟨haddress, hid, hvisited, hevents⟩
        exact ⟨n', rest, events ++ more, h.options ▸ hlength, h₂⟩
    | _ => exact trivial
  | _ => exact trivial

/-- On every wire, a location update that hands the session over leaves it at the last broker of a
chain of redirects within the limit: its channel was opened to the address of that one, which
accepted the registration on it. It reports the first broker of the chain. So the session is where
the report says if and only if the last broker has the address of the first. -/
theorem handedOff_route {s s' : Session W} {location : Location} {info : BrokerInfo}
    (h : exec (updateLocation location) s = (.ok (.handedOff info), s')) :
    ∃ n rest events, rest.length < s.options.maxHandoffHops ∧
      Followed ((n, info) :: rest) events s s' ∧
      ((s'.address = info.address ∧ ∃ l, s'.link = some l ∧ l.address = info.address) ↔
        ((n, info) :: rest).getLast?.map (fun hop => hop.2.address) = some info.address) := by
  obtain ⟨n, rest, events, hlength, h⟩ := (updateLocation_follows location s).ok h info rfl
  refine ⟨n, rest, events, hlength, h, ?_⟩
  obtain ⟨last, l, hlast, hl, -, haddress, hsession, -⟩ := h.arrived
  rw [hlast, Option.map_some, Option.some_inj, hsession]
  refine ⟨fun h => h.1, fun h => ⟨h, l, hl, haddress.trans h⟩⟩

/-- A session that the broker "A" sends on to the broker "B", and that one to the broker "C", which
answers the registration as given. -/
def passedOn (answer : Payload) : Session Script.wire :=
  (start "c" none ⟨100, 100, 100, 3⟩ (Script.start [] (Table.insert (Table.insert (Table.insert ∅
    "a:1" [.deliver [(0, .payload (.connAck .success))],
      .deliver [(0, .payload (.disconnect .wrongBroker (some ⟨"B", "b:1"⟩)))]])
    "b:1" [.deliver [(0, .payload (.disconnect .wrongBroker (some ⟨"C", "c:1"⟩)))],
      .deliver [(0, .payload (.connAck .success))]])
    "c:1" [.deliver [(0, .payload answer)]]) 0)).after [.connect "a:1"]

/-- If "C" sends it back to "B", which accepts it then, the report is right. -/
theorem handedOff_detour :
    let s := passedOn (.disconnect .wrongBroker (some ⟨"B", "b:1"⟩))
    ∃ s', exec (updateLocation ⟨0, 0⟩) s = (.ok (.handedOff ⟨"B", "b:1"⟩), s') ∧
      (dials s'.history).map Prod.fst = ["b:1", "c:1", "b:1", "a:1"] ∧
      ∃ n rest events, rest.length < 3 ∧ Followed ((n, ⟨"B", "b:1"⟩) :: rest) events s s' ∧
        (s'.address = "b:1" ∧ ∃ l, s'.link = some l ∧ l.address = "b:1") ∧
        ((n, ⟨"B", "b:1"⟩) :: rest).getLast?.map (fun hop => hop.2.address) = some "b:1" := by
  intro s
  have h : exec (updateLocation ⟨0, 0⟩) s = (.ok (.handedOff ⟨"B", "b:1"⟩), _) :=
    exec_of_toOption (by decide +kernel)
  have hlink : (exec (updateLocation ⟨0, 0⟩) s).2.link.map Link.address = some "b:1" := by
    decide +kernel
  have hlimit : s.options.maxHandoffHops = 3 := by decide +kernel
  obtain ⟨n, rest, events, hlength, hfollowed, hiff⟩ := handedOff_route h
  have hthere := And.intro (show (exec (updateLocation ⟨0, 0⟩) s).2.address = "b:1" by
    decide +kernel) (Option.map_eq_some_iff.1 hlink)
  exact ⟨_, h, by decide +kernel, n, rest, events, hlimit ▸ hlength, hfollowed, hthere,
    hiff.1 hthere⟩

/-- If "C" accepts it, the session is at "C", but "B" is reported. -/
theorem handedOff_astray :
    ∃ s', exec (updateLocation ⟨0, 0⟩) (passedOn (.connAck .success)) =
        (.ok (.handedOff ⟨"B", "b:1"⟩), s') ∧
      s'.address = "c:1" ∧ s'.link.map Link.address = some "c:1" ∧ s'.address ≠ "b:1" :=
  ⟨_, exec_of_toOption (by decide +kernel), by decide +kernel⟩

end Session

end Geocast
