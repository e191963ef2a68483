import Geocast.Proofs.Session.Effort
import Geocast.Proofs.Session.Handover
import Geocast.Proofs.Session.Selecting

/-! # Registering takes two attempts at most

A client that registers on a channel asks once, and once more only if it was refused because its id
is in use. `Registering` says so of what was sent and received on the channel, its `transcript`.
Each attempt is an `Exchange`: the client sends CONNECT, receives payloads of other kinds, and then
the reply, unless the wire fails or the time is over. -/

namespace Geocast

instance WireEvent.decidableIsTraffic (n : Nat) : DecidablePred (WireEvent.IsTraffic n)
  | .sent m .. | .received m _ => inferInstanceAs (Decidable (m = n))
  | .refused .. | .opened .. | .closed .. => .isFalse id

/-- What was sent and received on the channel numbered `n`, the newest first. -/
def transcript (n : Nat) (events : List WireEvent) : List WireEvent :=
  events.filter (·.IsTraffic n)

/-- On the channel numbered `n` the client was sent on to another broker. -/
def SentOn (n : Nat) (events : List WireEvent) : Prop :=
  ∃ target, .received n (.disconnect .wrongBroker (some target)) ∈ events

/-- The transcript of a channel on which a client at `location` registers, with at most `times`
attempts. -/
structure Registering (times n : Nat) (location : Option Location) (events : List WireEvent) :
    Prop where
  sends : events.countP WireEvent.isSent ≤ times
  connects : ∀ m address p, .sent m address p ∈ events → p = .connect location
  /-- What is sent comes first, or right after a refusal for an id that is in use. -/
  retried : ∀ later m address p earlier, events = later ++ .sent m address p :: earlier →
    earlier = [] ∨
      ∃ target older, earlier = .received n (.disconnect .protocolError target) :: older

namespace Registering

variable {times n : Nat} {location : Option Location} {events later : List WireEvent}
  {address : String}

theorem empty (times n : Nat) (location : Option Location) : Registering times n location [] where
  sends := Nat.zero_le _
  connects _ _ _ h := absurd h List.not_mem_nil
  retried later m address p earlier h := by simp at h

theorem mono (H : Registering times n location events) {times' : Nat} (h : times ≤ times') :
    Registering times' n location events :=
  ⟨Nat.le_trans H.sends h, H.connects, H.retried⟩

/-- One attempt sends once, in the beginning. -/
theorem single (h : ∀ e ∈ events, e.isSent = false) :
    Registering 1 n location (events ++ [.sent n address (.connect location)]) where
  sends := by
    have hnone : events.countP WireEvent.isSent = 0 :=
      List.countP_eq_zero.2 fun e he => by simp [h e he]
    rw [List.countP_append, hnone]
    exact Nat.le_refl 1
  connects m a p hmem := by
    rcases List.mem_append.1 hmem with hmem | hmem
    · cases h _ hmem
    · cases List.mem_singleton.1 hmem
      rfl
  retried later m a p earlier hsplit := by
    refine .inl ?_
    rcases List.eq_nil_or_concat earlier with rfl | ⟨older, e, rfl⟩
    · rfl
    · have hsplit : events ++ [.sent n address (.connect location)] =
          (later ++ .sent m a p :: older) ++ [e] := by simpa using hsplit
      have hevents := (List.append_inj' hsplit rfl).1
      have hmem : .sent m a p ∈ events := by simp [hevents]
      cases h _ hmem

/-- Another attempt may follow upon a refusal for an id that is in use. -/
theorem again {target : Option BrokerInfo} (H : Registering times n location later)
    (H₁ : Registering 1 n location (.received n (.disconnect .protocolError target) :: events)) :
    Registering (times + 1) n location
      (later ++ .received n (.disconnect .protocolError target) :: events) where
  sends := by
    rw [List.countP_append]
    exact Nat.add_le_add H.sends H₁.sends
  connects m a p hmem := by
    rcases List.mem_append.1 hmem with hmem | hmem
    · exact H.connects m a p hmem
    · exact H₁.connects m a p hmem
  retried last m a p earlier hsplit := by
    rcases List.append_eq_append_iff.1 hsplit with ⟨rest, rfl, hrest⟩ | ⟨rest, hlater, hrest⟩
    · exact H₁.retried rest m a p earlier hrest
    · cases rest with
      | nil => exact H₁.retried [] m a p earlier hrest.symm
      | cons e rest =>
        obtain ⟨rfl, rfl⟩ := List.cons.inj hrest
        refine .inr ?_
        rcases H.retried last m a p rest hlater with rfl | ⟨target', older, rfl⟩
        · exact ⟨target, events, rfl⟩
        · exact ⟨target', older ++ _, rfl⟩

end Registering

namespace Session

variable {W : Wire} {s s' : Session W} {l : Link W} {p : Payload}

/-- An attempt to register on the channel of `l`, which came to the reply or to none. -/
structure Exchange (l : Link W) (reply : Option Payload) (s s' : Session W) : Prop
    extends Steady s s' where
  history : ∃ between, s'.history = (reply.map (.received l.number)).toList ++
      (between ++ .sent l.number l.address (.connect s.location) :: s.history) ∧
    ∀ e ∈ between, ∃ q, e = .received l.number q ∧ q.kind ∉ registrationReplies

/-- The session after it sent CONNECT. -/
def sentConnect (s : Session W) (l : Link W) (w : W.State) : Session W :=
  { s with wire := w, history := .sent l.number l.address (.connect s.location) :: s.history }

/-- A wait for the reply in which none came. -/
theorem Selects.exchange {w : W.State} {i : W.Incoming} {r : Except SessionError (Option Payload)}
    (H : Selects registrationReplies l.number i (s.sentConnect l w) r s')
    (hr : ∀ p, r ≠ .ok (some p)) : Exchange l none s s' := by
  have hsent : Steady s (s.sentConnect l w) := ⟨rfl, rfl, rfl, rfl, rfl, rfl, rfl⟩
  refine ⟨hsent.trans H.toSteady, _, H.history_of_nothing hr, fun e he => ?_⟩
  obtain ⟨q, hq, rfl⟩ := List.mem_map.1 (List.mem_reverse.1 he)
  exact ⟨q, rfl, Wire.Incoming.kind_of_mem_ahead hq⟩

/-- An attempt is an exchange, whatever comes of it. -/
theorem askToRegister_exchanges (hl : s.link = some l)
    (hs : ∀ p ∈ s.inbox.contents, p.kind ∉ registrationReplies) :
    Ends s askToRegister
      (fun p s' => Exchange l (some p) s s' ∧ ∀ q ∈ s'.inbox.contents, q.kind ∉ registrationReplies)
      fun _ s' => Exchange l none s s' := by
  have hfails : Ends s askToRegister (fun _ _ => True) fun _ s' => Exchange l none s s' := by
    simp only [askToRegister, ends_bind, ends_get]
    refine ends_send (fun h => ?_) (fun l' w hl' _ => ?_) fun l' e w hl' _ => ?_
    · cases hl.symm.trans h
    · cases hl.symm.trans hl'
      have hnumber {n : Nat} (hn : (s.sentConnect l w).Uses n) : l.number = n := hn l hl
      rw [await, ends_bind]
      refine ends_next?_selects (fun _ _ _ => trivial) (fun n a s₁ _ hn H => ?_)
        fun n e s₁ _ hn H => ?_
      · obtain rfl := hnumber hn
        cases a with
        | none => exact H.exchange nofun
        | some p => exact trivial
      · obtain rfl := hnumber hn
        exact H.exchange nofun
    · cases hl.symm.trans hl'
      exact ⟨⟨rfl, rfl, rfl, rfl, rfl, rfl, rfl⟩, [], rfl, List.forall_mem_nil _⟩
  refine ((askToRegister_comes hl hs).and hfails).mono (fun p s' h => ?_) fun _ _ h => h.2
  obtain ⟨⟨hsupplied, -, hparked, between, hhistory, hbetween⟩, -⟩ := h
  exact ⟨⟨hsupplied.toSteady, between, hhistory, hbetween⟩, hparked⟩

/-- From `s` to `s'` the client registered on the channel numbered `n`, where it was `sentOn` to
another broker or not. -/
structure Registers (times n : Nat) (sentOn : Prop) (s s' : Session W) : Prop
    extends Steady s s' where
  events : ∃ events, s'.history = events ++ s.history ∧ (∀ e ∈ events, e.IsTraffic n) ∧
    Registering times n s.location events ∧ (SentOn n events ↔ sentOn)

theorem Registers.imp {times times' n : Nat} {sentOn sentOn' : Prop}
    (H : Registers times n sentOn s s') (ht : times ≤ times') (h : sentOn ↔ sentOn') :
    Registers times' n sentOn' s s' := by
  obtain ⟨events, hhistory, htraffic, hregistering, hsentOn⟩ := H.events
  exact ⟨H.toSteady, events, hhistory, htraffic, hregistering.mono ht, hsentOn.trans h⟩

/-- One attempt, which is sent on if that is the reply. -/
theorem Exchange.registers {reply : Option Payload} (H : Exchange l reply s s') :
    Registers 1 l.number (∃ target, reply = some (.disconnect .wrongBroker (some target)))
      s s' := by
  obtain ⟨between, hhistory, hbetween⟩ := H.history
  have hreceived (e : WireEvent)
      (he : e ∈ (reply.map (WireEvent.received l.number)).toList ++ between) :
      ∃ q, e = .received l.number q ∧ (q.kind ∈ registrationReplies → reply = some q) := by
    rcases List.mem_append.1 he with he | he
    · obtain ⟨q, hq, rfl⟩ := Option.map_eq_some_iff.1 (Option.mem_toList.1 he)
      exact ⟨q, rfl, fun _ => hq⟩
    · obtain ⟨q, rfl, hq⟩ := hbetween e he
      exact ⟨q, rfl, fun h => absurd h hq⟩
  refine ⟨H.toSteady, (reply.map (.received l.number)).toList ++ between ++
    [.sent l.number l.address (.connect s.location)], ?_, fun e he => ?_, .single fun e he => ?_,
    ⟨?_, ?_⟩⟩
  · rw [hhistory, List.append_assoc, List.append_assoc]
    rfl
  · rcases List.mem_append.1 he with he | he
    · obtain ⟨q, rfl, -⟩ := hreceived e he
      rfl
    · cases List.mem_singleton.1 he
      rfl
  · obtain ⟨q, rfl, -⟩ := hreceived e he
    rfl
  · rintro ⟨target, htarget⟩
    rcases List.mem_append.1 htarget with he | he
    · obtain ⟨q, hq, hreply⟩ := hreceived _ he
      cases hq
      exact ⟨target, hreply (by simp [registrationReplies, Payload.kind])⟩
    · cases List.mem_singleton.1 he
  · rintro ⟨target, rfl⟩
    exact ⟨target, List.mem_cons_self⟩

/-- An attempt that follows upon a refusal for an id that is in use. -/
theorem Registers.again {times : Nat} {sentOn : Prop} {target : Option BrokerInfo}
    {s₁ : Session W} (H₁ : Exchange l (some (.disconnect .protocolError target)) s s₁)
    (H : Registers times l.number sentOn s₁ s') : Registers (times + 1) l.number sentOn s s' := by
  obtain ⟨between, hexchange, -⟩ := H₁.history
  obtain ⟨first, hfirst, htraffic₁, hregistering₁, hsentOn₁⟩ := H₁.registers.events
  obtain ⟨later, hlater, htraffic, hregistering, hsentOn⟩ := H.events
  have hsplit : first = .received l.number (.disconnect .protocolError target) ::
      (between ++ [.sent l.number l.address (.connect s.location)]) := by
    refine List.append_cancel_right (hfirst.symm.trans (hexchange.trans ?_))
    simp
  subst hsplit
  rw [H₁.location] at hregistering
  refine ⟨H₁.toSteady.trans H.toSteady, _, ?_, fun e he => ?_, hregistering.again hregistering₁, ?_⟩
  · rw [hlater, hfirst, List.append_assoc]
  · exact (List.mem_append.1 he).elim (htraffic e) (htraffic₁ e)
  · rw [← hsentOn]
    refine ⟨fun ⟨t, ht⟩ => ?_, fun ⟨t, ht⟩ => ⟨t, List.mem_append_left _ ht⟩⟩
    rcases List.mem_append.1 ht with ht | ht
    · exact ⟨t, ht⟩
    · obtain ⟨_, hreply⟩ := hsentOn₁.1 ⟨t, ht⟩
      cases hreply

/-- How a client reads the reply to the last attempt. -/
theorem Registers.ofOutcome {times n : Nat} (H : Registers times n
    (∃ target, some p = some (.disconnect .wrongBroker (some target))) s s') :
    Ends s' (ofOutcome (registration p))
      (fun a s' => Registers times n (∃ target, a = .redirected target) s s')
      fun _ s' => Registers times n False s s' := by
  rw [ends_ofOutcome]
  split
  · next a ha =>
    refine H.imp (Nat.le_refl _) ⟨?_, ?_⟩
    · rintro ⟨target, ⟨⟩⟩
      cases ha
      exact ⟨target, rfl⟩
    · rintro ⟨target, rfl⟩
      exact ⟨target, congrArg some (registration_redirected ha)⟩
  · next e he =>
    refine H.imp (Nat.le_refl _) ⟨?_, False.elim⟩
    rintro ⟨target, ⟨⟩⟩
    cases he

/-- A registration takes one attempt more than `retries` at most, and is sent on to another broker
if this came in on the channel. -/
theorem registerRetrying_registers (retries : Nat) (hl : s.link = some l)
    (hs : ∀ p ∈ s.inbox.contents, p.kind ∉ registrationReplies) :
    Ends s (registerRetrying retries)
      (fun a s' => Registers (retries + 1) l.number (∃ target, a = .redirected target) s s')
      fun _ s' => Registers (retries + 1) l.number False s s' := by
  have hfirst (times : Nat) {reply : Option Payload} {s s' : Session W}
      (H : Exchange l reply s s') : Registers (times + 1) l.number
        (∃ target, reply = some (.disconnect .wrongBroker (some target))) s s' :=
    H.registers.imp (Nat.le_add_left 1 times) .rfl
  have hnone (times : Nat) {s s' : Session W} (H : Exchange l none s s') :
      Registers (times + 1) l.number False s s' :=
    (hfirst times H).imp (Nat.le_refl _) ⟨nofun, False.elim⟩
  induction retries generalizing s with
  | zero =>
    rw [registerRetrying, ends_bind]
    exact (askToRegister_exchanges hl hs).mono (fun _ _ h => (hfirst 0 h.1).ofOutcome)
      fun _ _ h => hnone 0 h
  | succ retries ih =>
    rw [registerRetrying, ends_bind]
    refine (askToRegister_exchanges hl hs).mono (fun p s₁ h => ?_) fun _ _ h => hnone _ h
    split
    · exact (ih (h.1.link.trans hl) h.2).mono (fun _ _ H => H.again h.1) fun _ _ H => H.again h.1
    · exact (hfirst _ h.1).ofOutcome

end Session

end Geocast
