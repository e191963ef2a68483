import Geocast.Proofs.Session.Registering

/-! # Redirects are bounded

Brokers may send a client on and on, or refuse it again and again. However they do, a session opens
no more channels than its options permit hops, and one more when it connects; on each of them it
registers, and nothing else is sent (`Trying`). One hop is `register_tries`, and a chain of them is
put together from hops by `Trying.trans`, since each opens a channel with a number of its own. A
client that is sent on by the last hop permitted (`Exhausted`) gives up, and says that this is the
reason (`redirects_bounded`). -/

namespace Geocast

/-- The events neither open channels nor use them. -/
def Idle (events : List WireEvent) : Prop :=
  ∀ e ∈ events, e.isOpened = false ∧ ∀ n, ¬ e.IsTraffic n

theorem idle_nil : Idle [] := List.forall_mem_nil _

theorem idle_refused (address clientId : String) : Idle [.refused address clientId] := by
  simp [Idle, WireEvent.isOpened, WireEvent.IsTraffic]

theorem idle_closed (n : Nat) (address : String) : Idle [.closed n address] := by
  simp [Idle, WireEvent.isOpened, WireEvent.IsTraffic]

section
variable {n m : Nat} {events later : List WireEvent}

theorem transcript_append :
    transcript n (later ++ events) = transcript n later ++ transcript n events :=
  List.filter_append ..

theorem transcript_of_traffic (h : ∀ e ∈ events, e.IsTraffic n) : transcript n events = events :=
  List.filter_eq_self.2 fun e he => decide_eq_true (h e he)

theorem transcript_eq_nil (h : ∀ e ∈ events, ¬ e.IsTraffic n) : transcript n events = [] :=
  List.filter_eq_nil_iff.2 fun e he => by simpa using h e he

theorem openings_append : openings (later ++ events) = openings later + openings events := by
  simp [openings]

theorem openings_eq_zero (h : ∀ e ∈ events, e.isOpened = false) : openings events = 0 := by
  rw [openings, List.filter_eq_nil_iff.2 fun e he => by simp [h e he], List.length_nil]

theorem not_sentOn (h : ∀ e ∈ events, ¬ e.IsTraffic n) : ¬ SentOn n events :=
  fun ⟨_, htarget⟩ => h _ htarget rfl

theorem sentOn_append : SentOn n (later ++ events) ↔ SentOn n later ∨ SentOn n events := by
  simp only [SentOn, List.mem_append, exists_or]

theorem Idle.openings (h : Idle events) : openings events = 0 :=
  openings_eq_zero fun e he => (h e he).1

theorem Idle.transcript (h : Idle events) (n : Nat) : transcript n events = [] :=
  transcript_eq_nil fun e he => (h e he).2 n

theorem Idle.not_sentOn (h : Idle events) (n : Nat) : ¬ SentOn n events :=
  Geocast.not_sentOn fun e he => (h e he).2 n

theorem WireEvent.IsTraffic.eq {e : WireEvent} (h : e.IsTraffic n) (h' : e.IsTraffic m) : n = m :=
  Option.some.inj (h.channel?.symm.trans h'.channel?)

end

/-- As many hops as were permitted from the channel numbered `base` on were made, and the last of
them was sent on again. -/
def Exhausted (base hops : Nat) (events : List WireEvent) : Prop :=
  hops = 0 ∨ SentOn (base + hops - 1) events

namespace Session

variable {W : Wire} {s s' s'' : Session W} {events later : List WireEvent} {n : Nat}

/-- From `s` to `s'`, in `events`, the client opened channels, and sent and received on these only.
On each of them it registered for its location in two attempts at most. -/
structure Trying (events : List WireEvent) (s s' : Session W) : Prop where
  history : s'.history = events ++ s.history
  location : s'.location = s.location
  own : ∀ e ∈ events, ∀ n, e.IsTraffic n → s.opened ≤ n ∧ n < s.opened + openings events
  registering : ∀ n, Registering 2 n s.location (transcript n events)

namespace Trying

theorem sentOn (H : Trying events s s') (h : SentOn n events) :
    s.opened ≤ n ∧ n < s.opened + openings events := by
  obtain ⟨target, htarget⟩ := h
  exact H.own _ htarget n rfl

theorem idle (hhistory : s'.history = events ++ s.history) (hlocation : s'.location = s.location)
    (h : Idle events) : Trying events s s' where
  history := hhistory
  location := hlocation
  own e he n hn := absurd hn ((h e he).2 n)
  registering n := h.transcript n ▸ .empty ..

/-- Later channels are new ones, so what was tried on the earlier ones stays as it is. -/
theorem trans (H : Trying events s s') (H' : Trying later s' s'') :
    Trying (later ++ events) s s'' := by
  have hopened : s'.opened = s.opened + openings events := opened_of_append H.history
  refine ⟨?_, H'.location.trans H.location, fun e he n hn => ?_, fun n => ?_⟩
  · rw [H'.history, H.history, List.append_assoc]
  · rw [openings_append]
    rcases List.mem_append.1 he with he | he
    · have := H'.own e he n hn
      omega
    · have := H.own e he n hn
      omega
  · rw [transcript_append]
    by_cases hn : n < s'.opened
    · have hnone : transcript n later = [] := transcript_eq_nil fun e he hn' => by
        have := H'.own e he n hn'
        omega
      rw [hnone]
      exact H.registering n
    · have hnone : transcript n events = [] := transcript_eq_nil fun e he hn' => by
        have := H.own e he n hn'
        omega
      rw [hnone, List.append_nil, ← H.location]
      exact H'.registering n

end Trying

/-! ## One channel -/

/-- One channel at most was opened, and the client was `sentOn` there or not. -/
def Tried (sentOn : Prop) (s s' : Session W) : Prop :=
  ∃ events, Trying events s s' ∧ openings events ≤ 1 ∧ (SentOn s.opened events ↔ sentOn)

/-- Without a channel the client was not sent on. -/
theorem tried_of_idle (h : Idle events) (hhistory : s'.history = events ++ s.history)
    (hlocation : s'.location = s.location) : Tried False s s' :=
  ⟨events, .idle hhistory hlocation h, by rw [h.openings]; exact Nat.zero_le 1,
    h.not_sentOn s.opened, False.elim⟩

/-- What was done on a channel after it was opened, while others were closed. -/
theorem Registers.tried {s₁ : Session W} {sentOn : Prop} {address clientId : String}
    {closings : List WireEvent} (H : Registers 2 s.opened sentOn s₁ s')
    (hhistory : s₁.history = closings ++ .opened s.opened address clientId :: s.history)
    (hlocation : s₁.location = s.location) (hclosings : Idle closings) : Tried sentOn s s' := by
  obtain ⟨events, hevents, htraffic, hregistering, hsentOn⟩ := H.events
  have hbefore (e : WireEvent) (he : e ∈ closings ++ [.opened s.opened address clientId])
      (n : Nat) : ¬ e.IsTraffic n := by
    rcases List.mem_append.1 he with he | he
    · exact (hclosings e he).2 n
    · cases List.mem_singleton.1 he
      exact not_false
  have hone : openings (events ++ (closings ++ [.opened s.opened address clientId])) = 1 := by
    rw [openings_append, openings_append, hclosings.openings,
      openings_eq_zero fun e he => (htraffic e he).isOpened]
    rfl
  refine ⟨_, ⟨?_, H.location.trans hlocation, fun e he n hn => ?_, fun n => ?_⟩,
    Nat.le_of_eq hone, ?_⟩
  · rw [hevents, hhistory, List.append_assoc, List.append_assoc]
    rfl
  · rw [hone]
    rcases List.mem_append.1 he with he | he
    · obtain rfl := (htraffic e he).eq hn
      exact ⟨Nat.le_refl _, Nat.lt_succ_self _⟩
    · exact absurd hn (hbefore e he n)
  · rw [transcript_append, transcript_eq_nil fun e he => hbefore e he n, List.append_nil]
    by_cases hn : s.opened = n
    · subst hn
      rw [transcript_of_traffic htraffic, ← hlocation]
      exact hregistering
    · rw [transcript_eq_nil fun e he hn' => hn ((htraffic e he).eq hn')]
      exact .empty ..
  · rw [sentOn_append, or_iff_left (not_sentOn fun e he => hbefore e he s.opened)]
    exact hsentOn

/-- Registering on a channel that was just opened. -/
theorem register_tries {s₁ : Session W} {closings : List WireEvent} (c : W.Channel)
    (address clientId : String) (hl : s₁.link = some ⟨c, s.opened, address⟩)
    (hinbox : s₁.inbox = .empty) (hlocation : s₁.location = s.location)
    (hhistory : s₁.history = closings ++ .opened s.opened address clientId :: s.history)
    (hclosings : Idle closings) :
    Ends s₁ register (fun a s' => Tried (∃ next, a = .redirected next) s s')
      fun _ s' => Tried False s s' := by
  have hparked : ∀ p ∈ s₁.inbox.contents, p.kind ∉ registrationReplies := by
    rw [hinbox]
    exact fun p hp => absurd hp List.not_mem_nil
  exact (registerRetrying_registers 1 hl hparked).mono
    (fun _ _ H => H.tried hhistory hlocation hclosings)
    fun _ _ H => H.tried hhistory hlocation hclosings

theorem closed_events (s : Session W) : ∃ events, s.closed.history = events ++ s.history ∧
    Idle events := by
  unfold closed
  split
  · next l _ => exact ⟨[.closed l.number l.address], rfl, idle_closed l.number l.address⟩
  · exact ⟨[], rfl, idle_nil⟩

/-- A hop opens one channel, unless its broker cannot be reached. -/
theorem handoff_tries (target : BrokerInfo) (s : Session W) :
    Ends s (handoff target) (fun a s' => Tried (∃ next, a = .redirected next) s s')
      fun e s' => (∃ t cause, e = .handoffFailed t cause) ∧ Tried False s s' := by
  simp only [handoff, ends_bind, ends_leave, ends_inHandoff, ends_closeChannel, ends_modify]
  have hopened : (s.left target).opened = s.opened := by
    rw [Session.opened, left_history]
    rfl
  refine ends_dial (fun c w _ => ?_) fun e w _ => ⟨⟨_, _, rfl⟩, ?_⟩
  · obtain ⟨closings, hhistory, hclosings⟩ :=
      closed_events ((s.left target).dialed target.address w)
    refine (register_tries c target.address (s.left target).id ?_ ?_ ?_ ?_ hclosings).mono
      (fun _ _ h => h) fun _ _ h => ⟨⟨_, _, rfl⟩, h⟩
    · exact congrArg (fun n => some (⟨c, n, target.address⟩ : Link W)) hopened
    · exact closed_inbox _
    · exact (closed_location _).trans (left_location s target)
    · refine hhistory.trans ?_
      rw [dialed, hopened, left_history]
  · exact tried_of_idle (idle_refused target.address (s.left target).id)
      (congrArg (_ :: ·) (left_history s target)) (left_location s target)

/-! ## Chains of redirects -/

/-- What an action with `hops` hops comes to, if it gives up with the limit `limit`. -/
def Bounded {α : Type} (limit hops : Nat) (s : Session W) (r : Except SessionError α)
    (s' : Session W) : Prop :=
  ∃ events, Trying events s s' ∧ openings events ≤ hops ∧
    (Exhausted s.opened hops events ↔ r = .error (.tooManyRedirects limit))

/-- After a channel on which the client was sent on, the next hops decide. -/
theorem Trying.exhausted {hops : Nat} (H : Trying events s s') (hone : openings events ≤ 1)
    (hsentOn : SentOn s.opened events) :
    Exhausted s.opened (hops + 1) (later ++ events) ↔ Exhausted s'.opened hops later := by
  have hopened : s'.opened = s.opened + openings events := opened_of_append H.history
  have hbounds := H.sentOn hsentOn
  have hnext : s'.opened = s.opened + 1 := by omega
  rw [Exhausted, Exhausted, sentOn_append, hnext]
  cases hops with
  | zero => exact iff_of_true (.inr (.inr hsentOn)) (.inl rfl)
  | succ hops =>
    have hnot : ¬ SentOn (s.opened + (hops + 1)) events := fun h => by
      have := H.sentOn h
      omega
    have hsame : s.opened + 1 + (hops + 1) - 1 = s.opened + (hops + 1) := by omega
    have hlast : s.opened + (hops + 1 + 1) - 1 = s.opened + (hops + 1) := by omega
    rw [hsame, hlast, or_iff_left hnot]
    simp

/-- Where the client was not sent on, no chain ends. -/
theorem Trying.not_exhausted {hops : Nat} (H : Trying events s s') (hone : openings events ≤ 1)
    (h : ¬ SentOn s.opened events) : ¬ Exhausted s.opened (hops + 1) events := by
  rintro (hzero | hlast)
  · cases hzero
  · have hbounds := H.sentOn hlast
    have hhops : s.opened + (hops + 1) - 1 = s.opened := by omega
    exact h (hhops ▸ hlast)

/-- A chain of redirects is bounded by its hops. -/
theorem hopUntilAccepted_bounded (limit hops : Nat) (target : BrokerInfo) (s : Session W) :
    Ends s (hopUntilAccepted limit hops target) (fun a s' => Bounded limit hops s (.ok a) s')
      fun e s' => Bounded (α := Unit) limit hops s (.error e) s' := by
  induction hops generalizing target s with
  | zero =>
    exact ⟨[], .idle rfl rfl idle_nil, Nat.le_refl 0, iff_of_true (.inl rfl) rfl⟩
  | succ hops ih =>
    rw [hopUntilAccepted, ends_bind]
    refine (handoff_tries target s).mono (fun a s₁ h => ?_) fun e s₁ h => ?_
    · obtain ⟨events, H, hone, hsentOn⟩ := h
      cases a with
      | accepted =>
        refine ⟨events, H, by omega, iff_of_false (H.not_exhausted hone ?_) (by simp)⟩
        simp [hsentOn]
      | redirected next =>
        have hstep {r : Except SessionError Unit} {s' : Session W}
            (h : Bounded limit hops s₁ r s') : Bounded limit (hops + 1) s r s' := by
          obtain ⟨later, H', hhops, hiff⟩ := h
          refine ⟨later ++ events, H.trans H', ?_, ?_⟩
          · rw [openings_append]
            omega
          · rw [H.exhausted hone (hsentOn.2 ⟨next, rfl⟩)]
            exact hiff
        exact (ih next s₁).mono (fun _ _ h => hstep h) fun _ _ h => hstep h
    · obtain ⟨⟨t, cause, rfl⟩, events, H, hone, hsentOn⟩ := h
      refine ⟨events, H, by omega, iff_of_false (H.not_exhausted hone ?_) (by simp)⟩
      rw [hsentOn]
      exact not_false

/-- Channels that are closed in the end change nothing. -/
theorem Trying.close {closings : List WireEvent} (H : Trying events s s')
    (hhistory : s''.history = closings ++ s'.history) (hlocation : s''.location = s'.location)
    (hclosings : Idle closings) (base hops : Nat) :
    Trying (closings ++ events) s s'' ∧ openings (closings ++ events) = openings events ∧
      (Exhausted base hops (closings ++ events) ↔ Exhausted base hops events) := by
  refine ⟨H.trans (.idle hhistory hlocation hclosings), ?_, ?_⟩
  · rw [openings_append, hclosings.openings, Nat.zero_add]
  · rw [Exhausted, Exhausted, sentOn_append, or_iff_right (hclosings.not_sentOn _)]

theorem movedFrom_events (s origin : Session W) :
    (s.movedFrom origin).location = s.location ∧
    ∃ events, (s.movedFrom origin).history = events ++ s.history ∧ Idle events := by
  unfold movedFrom
  split
  · next l _ => exact ⟨rfl, [.closed l.number l.address], rfl, idle_closed l.number l.address⟩
  · exact ⟨rfl, [], rfl, idle_nil⟩

theorem followRedirects_bounded (target : BrokerInfo) (s : Session W) :
    Ends s (followRedirects target)
      (fun a s' => Bounded s.options.maxHandoffHops s.options.maxHandoffHops s (.ok a) s')
      fun e s' => Bounded (α := Unit) s.options.maxHandoffHops s.options.maxHandoffHops s
        (.error e) s' := by
  have hended {r : Except SessionError Unit} {s' s'' : Session W} {closings : List WireEvent}
      (h : Bounded s.options.maxHandoffHops s.options.maxHandoffHops
        { s with link := none, inbox := .empty } r s')
      (hhistory : s''.history = closings ++ s'.history) (hlocation : s''.location = s'.location)
      (hclosings : Idle closings) :
      Bounded s.options.maxHandoffHops s.options.maxHandoffHops s r s'' := by
    obtain ⟨events, H, hhops, hiff⟩ := h
    have H : Trying events s s' := ⟨H.history, H.location, H.own, H.registering⟩
    obtain ⟨H', hopenings, hexhausted⟩ := H.close hhistory hlocation hclosings s.opened
      s.options.maxHandoffHops
    exact ⟨_, H', Nat.le_trans (Nat.le_of_eq hopenings) hhops, hexhausted.trans hiff⟩
  rw [ends_followRedirects]
  refine (hopUntilAccepted_bounded _ _ target _).mono (fun _ s' h => ?_) fun e s' h => ?_
  · obtain ⟨hlocation, closings, hhistory, hclosings⟩ := movedFrom_events s' s
    exact hended h hhistory hlocation hclosings
  · obtain ⟨closings, hhistory, hclosings⟩ := closed_events s'
    exact hended h hhistory (closed_location s') hclosings

/-! ## Connecting -/

/-- What connecting comes to, with one channel more than there are hops. -/
def Limited {α : Type} (limit : Nat) (s : Session W) (r : Except SessionError α)
    (s' : Session W) : Prop :=
  ∃ events, Trying events s s' ∧ openings events ≤ limit + 1 ∧
    (Exhausted s.opened (limit + 1) events → r = .error (.tooManyRedirects limit))

theorem Limited.closed {α : Type} {limit : Nat} {r : Except SessionError α}
    (H : Limited limit s r s') : Limited limit s r s'.closed := by
  obtain ⟨events, H, hhops, h⟩ := H
  obtain ⟨closings, hhistory, hclosings⟩ := closed_events s'
  obtain ⟨H', hopenings, hexhausted⟩ := H.close hhistory (closed_location s') hclosings s.opened
    (limit + 1)
  exact ⟨_, H', Nat.le_trans (Nat.le_of_eq hopenings) hhops, fun h' => h (hexhausted.1 h')⟩

/-- Where the client was not sent on, it does not give up. -/
theorem Tried.limited {α : Type} (H : Tried False s s') (limit : Nat)
    (r : Except SessionError α) : Limited limit s r s' := by
  obtain ⟨events, H, hone, hsentOn⟩ := H
  exact ⟨events, H, by omega, fun h => absurd h (H.not_exhausted hone hsentOn.1)⟩

/-- Where it was sent on, the hops decide. -/
theorem Bounded.limited {α : Type} {limit : Nat} {r : Except SessionError α}
    (H : Bounded limit limit s' r s'') (H₁ : Tried True s s') : Limited limit s r s'' := by
  obtain ⟨events, H₁, hone, hsentOn⟩ := H₁
  obtain ⟨later, H, hhops, hiff⟩ := H
  refine ⟨later ++ events, H₁.trans H, ?_, fun h => ?_⟩
  · rw [openings_append]
    omega
  · exact hiff.1 ((H₁.exhausted hone (hsentOn.2 trivial)).1 h)

/-- Channels that were closed before change nothing. -/
theorem Tried.after_closing {o : Session W} {sentOn : Prop} {closings : List WireEvent}
    (H : Tried sentOn s s') (hhistory : s.history = closings ++ o.history)
    (hlocation : s.location = o.location) (hclosings : Idle closings) : Tried sentOn o s' := by
  obtain ⟨events, H, hone, hsentOn⟩ := H
  have hopened : s.opened = o.opened := by
    rw [opened_of_append hhistory, hclosings.openings, Nat.add_zero]
  refine ⟨events ++ closings, .trans (.idle hhistory hlocation hclosings) H, ?_, ?_⟩
  · rw [openings_append, hclosings.openings]
    exact hone
  · rw [sentOn_append, or_iff_left (hclosings.not_sentOn _), ← hopened]
    exact hsentOn

/-- The session that is about to connect. -/
def entering (s : Session W) (address : String) : Session W :=
  { s.closed with visited := [], subscriptions := ∅, address := address }

theorem connect_limited (address : String) (s : Session W) :
    Ends s (connect address) (fun a s' => Limited s.options.maxHandoffHops s (.ok a) s')
      fun e s' => Limited (α := Unit) s.options.maxHandoffHops s (.error e) s' := by
  obtain ⟨closings, hhistory, hclosings⟩ := closed_events s
  have hentered {sentOn : Prop} {s' : Session W} (H : Tried sentOn (s.entering address) s') :
      Tried sentOn s s' := H.after_closing hhistory (closed_location s) hclosings
  simp only [connect, ends_bind, ends_closeChannel, ends_modify, ends_tryCatch, ends_throw]
  refine ends_dial (fun c w _ => ?_) fun e w _ => ?_
  · have hregistered : Ends { (s.entering address).dialed address w with
          link := some ⟨c, (s.entering address).opened, address⟩ } register
        (fun a s' => Tried (∃ next, a = .redirected next) (s.entering address) s')
        fun _ s' => Tried False (s.entering address) s' :=
      register_tries c address (s.entering address).id rfl (closed_inbox s) rfl rfl idle_nil
    refine (hregistered.and (register_traffic (uses_of_link rfl))).mono (fun a s₁ h => ?_)
      fun e s₁ h => ((hentered h.1).limited _ _).closed
    obtain ⟨htried, htraffic⟩ := h
    have hoptions : s₁.options = s.options := htraffic.options.trans (closed_options s)
    cases a with
    | accepted => exact Tried.limited (hentered (by simpa using htried)) _ _
    | redirected next =>
      have htried : Tried True s s₁ := hentered (by simpa using htried)
      rw [← hoptions]
      exact (followRedirects_bounded next s₁).mono (fun _ _ h => h.limited htried)
        fun _ _ h => (h.limited htried).closed
  · have hrefused : Tried False (s.entering address) { s.entering address with
        wire := w
        history := .refused address (s.entering address).id :: (s.entering address).history } :=
      tried_of_idle (idle_refused address (s.entering address).id) rfl rfl
    exact (hentered hrefused).limited _ _

/-- Whoever sends a client on or refuses it, and how often: connecting opens one channel more at
most than redirects are followed in a row, and following redirects no more than that. On each
channel the client asks twice at most to be registered, with its location, and again only if it was
refused because its id is in use; nothing else is sent. If it is sent on by the last broker
permitted, this is the error. -/
theorem redirects_bounded (s : Session W) :
    let limit := s.options.maxHandoffHops
    (∀ address, ∃ events, Trying events s (exec (connect address) s).2 ∧
      openings events ≤ 1 + limit ∧ (SentOn (s.opened + limit) events →
        (exec (connect address) s).1 = .error (.tooManyRedirects limit))) ∧
    ∀ target, ∃ events, Trying events s (exec (followRedirects target) s).2 ∧
      openings events ≤ limit ∧ (limit = 0 ∨ SentOn (s.opened + limit - 1) events ↔
        (exec (followRedirects target) s).1 = .error (.tooManyRedirects limit)) := by
  intro limit
  refine ⟨fun address => ?_, fun target => ?_⟩
  · obtain ⟨events, H, hhops, h⟩ := Ends.result (R := fun r s' => Limited limit s r s')
      (connect_limited address s)
    exact ⟨events, H, by omega, fun hlast => h (.inr hlast)⟩
  · exact Ends.result (R := fun r s' => Bounded limit limit s r s')
      (followRedirects_bounded target s)

/-- Two brokers that send everybody on to each other, and a client that follows two redirects. -/
def toAndFro : Session Script.wire :=
  start "c" none ⟨100, 100, 100, 2⟩ (Script.start [] (Table.insert (Table.insert ∅
    "a:1" [.deliver [(0, .payload (.disconnect .wrongBroker (some ⟨"B", "b:1"⟩)))],
      .deliver [(0, .payload (.disconnect .wrongBroker (some ⟨"B", "b:1"⟩)))]])
    "b:1" [.deliver [(0, .payload (.disconnect .wrongBroker (some ⟨"A", "a:1"⟩)))]]) 0)

example : openings (toAndFro.after [.connect "a:1"]).history = 3 := by decide +kernel

end Session

end Geocast
