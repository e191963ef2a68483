import Geocast.Proofs.Session.Accounts
import Geocast.Proofs.Session.Parking

/-! # Sessions are consistent

Channel, address, id and inbox of a session change at different points of connecting, handing off,
rolling back and closing. Still they agree after every operation, whatever comes of it: an open
channel was opened to the address and under the id of the session and accepted the registration on
it (`Joined`), and all that is parked came in on that channel; without a channel nothing is parked
(`session_consistent`). -/

namespace Geocast

/-- The kinds of replies to a registration. -/
def registrationReplies : List PayloadKind := [.connAck, .disconnect]

/-- Of the channel numbered `n` the events tell that it was opened to `address` under `id`, that a
registration was sent on it later, and that the first reply to a registration that came in on it
since then, with nothing in between but payloads of other kinds, accepted the registration. -/
def Accepted (events : List WireEvent) (n : Nat) (address id : String) : Prop :=
  ∃ later between earlier location, events =
      later ++ .received n (.connAck .success) ::
        (between ++ .sent n address (.connect location) :: earlier) ∧
    (∀ e ∈ between, ∃ p, e = .received n p ∧ p.kind ∉ registrationReplies) ∧
    .opened n address id ∈ earlier

theorem Accepted.mono {events events' : List WireEvent} {n : Nat} {address id : String}
    (H : Accepted events n address id) (h : events <:+ events') :
    Accepted events' n address id := by
  obtain ⟨later, between, earlier, location, rfl, hbetween, hopened⟩ := H
  obtain ⟨more, rfl⟩ := h
  exact ⟨more ++ later, between, earlier, location, (List.append_assoc ..).symm, hbetween, hopened⟩

namespace Session

variable {W : Wire} {s s' : Session W} {l : Link W}

/-- The session after it opened a channel. -/
def dialed (s : Session W) (address : String) (w : W.State) : Session W :=
  { s with wire := w, history := .opened s.opened address s.id :: s.history }

theorem exec_dial {address : String} {c : W.Channel} {w : W.State}
    (h : W.dial address s.id s.wire = (.ok c, w)) :
    exec (dial address) s = (.ok ⟨c, s.opened, address⟩, s.dialed address w) := by
  unfold dial
  rw [exec_get_bind, h]
  rfl

/-- The session uses the channel of `l`, which it opened to its address and under its id, and has
parked nothing but what came in on it. -/
structure Attached (s : Session W) (l : Link W) : Prop where
  link : s.link = some l
  address : l.address = s.address
  dialed : ∃ t w, t.id = s.id ∧ exec (dial s.address) t = (.ok l, t.dialed s.address w) ∧
    (t.dialed s.address w).history <:+ s.history
  opened : .opened l.number s.address s.id ∈ s.history
  parked : ∀ p ∈ s.inbox.contents, .received l.number p ∈ s.history

/-- The session uses a channel on which it is registered. -/
def Joined (s : Session W) : Prop :=
  ∃ l, Attached s l ∧ Accepted s.history l.number s.address s.id

/-- The session is registered on its channel, or it has neither a channel nor anything parked. -/
def Consistent (s : Session W) : Prop := Joined s ∨ s.link = none ∧ s.inbox = .empty

theorem Attached.supplied (H : Attached s l) (h : Supplied s s') : Attached s' l where
  link := h.link.trans H.link
  address := H.address.trans h.address.symm
  dialed := by
    obtain ⟨t, w, hid, hdial, hhistory⟩ := H.dialed
    rw [h.address, h.id]
    exact ⟨t, w, hid, hdial, hhistory.trans h.history⟩
  opened := by
    rw [h.address, h.id]
    exact h.history.subset H.opened
  parked p hp := by
    rcases h.parked p hp with hp | ⟨l', hl', hp⟩
    · exact h.history.subset (H.parked p hp)
    · cases H.link.symm.trans hl'
      exact hp

theorem Joined.supplied (H : Joined s) (h : Supplied s s') : Joined s' := by
  obtain ⟨l, hattached, haccepted⟩ := H
  refine ⟨l, hattached.supplied h, ?_⟩
  rw [h.address, h.id]
  exact haccepted.mono h.history

theorem Consistent.supplied (H : Consistent s) (h : Supplied s s') : Consistent s' := by
  refine H.imp (fun H => H.supplied h) fun ⟨hl, hi⟩ => ⟨h.link.trans hl, ?_⟩
  refine Inbox.eq_empty_of_contents (List.eq_nil_iff_forall_not_mem.2 fun p hp => ?_)
  rcases h.parked p hp with hp | ⟨l, hl', -⟩
  · rw [hi] at hp
    exact nomatch hp
  · rw [hl] at hl'
    exact nomatch hl'

theorem consistent_closed (s : Session W) : Consistent s.closed :=
  .inr ⟨closed_link s, closed_inbox s⟩

/-! ## Registering -/

/-- No reply to a registration is parked, so the one that is read came in after asking, with nothing
in between but payloads of other kinds. -/
theorem askToRegister_comes (hl : s.link = some l)
    (hs : ∀ p ∈ s.inbox.contents, p.kind ∉ registrationReplies) :
    Ends s askToRegister (fun p s' => Supplied s s' ∧ Traffic l.number s s' ∧
      (∀ q ∈ s'.inbox.contents, q.kind ∉ registrationReplies) ∧ ∃ between, s'.history =
        .received l.number p ::
          (between ++ .sent l.number l.address (.connect s.location) :: s.history) ∧
        ∀ e ∈ between, ∃ q, e = .received l.number q ∧ q.kind ∉ registrationReplies)
      fun _ _ => True := by
  simp only [askToRegister, ends_bind, ends_get]
  refine ends_send (fun _ => trivial) (fun l' w hl' _ => ?_) fun _ _ _ _ _ => trivial
  cases hl.symm.trans hl'
  have hsent : Supplied s { s with
      wire := w, history := .sent l.number l.address (.connect s.location) :: s.history } :=
    ⟨⟨rfl, rfl, rfl, rfl, rfl, rfl, rfl⟩, List.suffix_cons _ _, fun _ h => .inl h⟩
  have htraffic : Traffic l.number s { s with
      wire := w, history := .sent l.number l.address (.connect s.location) :: s.history } :=
    .single s (e := .sent l.number l.address _) rfl w s.inbox
  rw [await, ends_bind]
  refine ends_next? (fun p i h => ?_) fun _ => ?_
  · have hnone : s.inbox.take? registrationReplies = none := Inbox.take?_of_unexpected hs
    cases hnone.symm.trans h
  · refine ends_receive (fun _ => trivial) (fun l' a s' hl' h => ?_) fun _ _ _ _ _ => trivial
    cases hl.symm.trans hl'
    cases a with
    | none => exact trivial
    | some p =>
      obtain ⟨between, hhistory, hbetween⟩ := h.came rfl
      exact ⟨hsent.trans (h.supplied hl'), htraffic.trans h.traffic, h.unexpected hs, between,
        hhistory, hbetween⟩

/-- What there is when a client reads the reply `p` to its registration. -/
def RegistrationRead (p : Payload) (l : Link W) (s : Session W) : Prop :=
  Attached s l ∧ (∀ q ∈ s.inbox.contents, q.kind ∉ registrationReplies) ∧
    (p = .connAck .success → Accepted s.history l.number s.address s.id)

theorem askToRegister_read (H : Attached s l)
    (hs : ∀ p ∈ s.inbox.contents, p.kind ∉ registrationReplies) :
    Ends s askToRegister (fun p s' => RegistrationRead p l s') fun _ _ => True := by
  refine (askToRegister_comes H.link hs).mono (fun p s' h => ?_) fun _ _ h => h
  obtain ⟨hsupplied, -, hparked, between, hhistory, hbetween⟩ := h
  have H' := H.supplied hsupplied
  refine ⟨H', hparked, ?_⟩
  rintro rfl
  refine ⟨[], between, s.history, s.location, ?_, hbetween, ?_⟩
  · rw [hhistory, ← H'.address]
    rfl
  · rw [hsupplied.address, hsupplied.id]
    exact H.opened

theorem registration_accepted {p : Payload} (h : registration p = .ok .accepted) :
    p = .connAck .success := by
  unfold registration at h
  split at h <;> first | rfl | exact nomatch h

/-- A session that registers on a channel of its own is joined if it is accepted. -/
theorem registerRetrying_joins (retries : Nat) (H : Attached s l)
    (hs : ∀ p ∈ s.inbox.contents, p.kind ∉ registrationReplies) :
    Ends s (registerRetrying retries)
      (fun a s' => Attached s' l ∧ (a = .accepted → Joined s')) fun _ _ => True := by
  have hend {p : Payload} {s' : Session W} (h : RegistrationRead p l s') :
      Ends s' (ofOutcome (registration p))
        (fun a s' => Attached s' l ∧ (a = .accepted → Joined s')) fun _ _ => True := by
    rw [ends_ofOutcome]
    split
    · next a ha =>
      refine ⟨h.1, ?_⟩
      rintro rfl
      exact ⟨l, h.1, h.2.2 (registration_accepted ha)⟩
    · exact trivial
  induction retries generalizing s with
  | zero =>
    rw [registerRetrying, ends_bind]
    exact (askToRegister_read H hs).mono (fun _ _ h => hend h) fun _ _ h => h
  | succ retries ih =>
    rw [registerRetrying, ends_bind]
    refine (askToRegister_read H hs).mono (fun p s' h => ?_) fun _ _ h => h
    split
    · exact ih h.1 h.2.1
    · exact hend h

/-- A session registers on a channel that it opened when it has dropped all that was parked. -/
theorem register_joins {s₁ : Session W} {address : String} {c : W.Channel} {w : W.State}
    (hdial : W.dial address s₁.id s₁.wire = (.ok c, w)) (hid : s.id = s₁.id)
    (hhistory : (s₁.dialed address w).history <:+ s.history) (hinbox : s.inbox = .empty) :
    Ends { s with link := some ⟨c, s₁.opened, address⟩, address := address } register
      (fun a s' => (∃ l, Attached s' l) ∧ (a = .accepted → Joined s')) fun _ _ => True := by
  have hopened : .opened s₁.opened address s₁.id ∈ s.history :=
    hhistory.subset List.mem_cons_self
  have hnone : ∀ p, p ∉ s.inbox.contents := by
    rw [hinbox]
    exact fun _ => List.not_mem_nil
  have H : Attached { s with link := some ⟨c, s₁.opened, address⟩, address := address }
      ⟨c, s₁.opened, address⟩ :=
    ⟨rfl, rfl, ⟨s₁, w, hid.symm, exec_dial hdial, hhistory⟩, hid ▸ hopened,
      fun p hp => absurd hp (hnone p)⟩
  exact (registerRetrying_joins 1 H fun p hp => absurd hp (hnone p)).mono
    (fun _ _ h => ⟨⟨_, h.1⟩, h.2⟩) fun _ _ h => h

/-! ## Handing off -/

/-- Wherever a chain of redirects begins, it ends at a broker that accepted the client. -/
theorem hopUntilAccepted_joins (limit hops : Nat) (target : BrokerInfo) (s : Session W) :
    Ends s (hopUntilAccepted limit hops target) (fun _ s' => Joined s') fun _ _ => True := by
  induction hops generalizing target s with
  | zero => exact trivial
  | succ hops ih =>
    simp only [hopUntilAccepted, handoff, ends_bind, ends_leave, ends_inHandoff, ends_closeChannel,
      ends_modify]
    refine ends_dial (fun c w h => ?_) fun _ _ _ => trivial
    have hjoins := register_joins (s := ((s.left target).dialed target.address w).closed) h
      (closed_id _) (history_closed _) (closed_inbox _)
    refine hjoins.mono (fun a s₁ h => ?_) fun _ _ _ => trivial
    cases a with
    | accepted => exact h.2 rfl
    | redirected next => exact ih next s₁

theorem Joined.movedFrom (H : Joined s) (origin : Session W) : Joined (s.movedFrom origin) := by
  obtain ⟨l, H, haccepted⟩ := H
  unfold Session.movedFrom
  split
  · next l' _ =>
    have hgrown := List.suffix_cons (.closed l'.number l'.address) s.history
    obtain ⟨t, w, hid, hdial, hhistory⟩ := H.dialed
    exact ⟨l, ⟨H.link, H.address, ⟨t, w, hid, hdial, hhistory.trans hgrown⟩,
      hgrown.subset H.opened, fun p hp => hgrown.subset (H.parked p hp)⟩, haccepted.mono hgrown⟩
  · exact ⟨l, ⟨H.link, H.address, H.dialed, H.opened, H.parked⟩, haccepted⟩

theorem followRedirects_joins (target : BrokerInfo) (s : Session W) :
    Ends s (followRedirects target) (fun _ s' => Joined s') fun _ _ => True := by
  rw [ends_followRedirects]
  exact (hopUntilAccepted_joins _ _ target _).mono (fun _ _ h => h.movedFrom s) fun _ _ h => h

/-- A session that a failed chain puts back is as consistent as before. -/
theorem RolledBack.consistent (h : RolledBack s s') (H : Consistent s) : Consistent s' := by
  refine H.supplied ⟨h.toSteady, ?_, fun p hp => .inl (h.inbox ▸ hp)⟩
  obtain ⟨events, hhistory, -⟩ := h.events
  exact ⟨events, hhistory.symm⟩

theorem followRedirects_consistent (target : BrokerInfo) :
    Keeps (W := W) Consistent (fun _ => Consistent) (followRedirects target) := fun s hs =>
  ((followRedirects_cases target s).and (followRedirects_joins target s)).mono
    (fun _ _ h => .inl h.2) fun _ _ h => h.1.consistent hs

/-! ## Operations -/

theorem connect_consistent (address : String) (s : Session W) :
    Ends s (connect address) (fun _ s' => Consistent s') fun _ s' => Consistent s' := by
  simp only [connect, ends_bind, ends_closeChannel, ends_modify, ends_tryCatch, ends_throw]
  refine ends_dial (fun c w h => ?_) fun e w _ => ?_
  · have hjoins := register_joins h (s := dialed { s.closed with
      visited := [], subscriptions := ∅, address := address } address w) rfl List.suffix_rfl
      (closed_inbox s)
    refine hjoins.mono (fun a s₁ h => ?_) fun _ s₁ _ => consistent_closed s₁
    cases a with
    | accepted => exact .inl (h.2 rfl)
    | redirected next =>
      exact (followRedirects_joins next s₁).mono (fun _ _ h => .inl h)
        fun _ s₂ _ => consistent_closed s₂
  · exact .inr ⟨closed_link s, closed_inbox s⟩

theorem consistent_keeps : PartsKeep (W := W) Consistent where
  connect address s _ := connect_consistent address s
  followRedirects := followRedirects_consistent
  send p s hs := (send_supplied s p).mono (fun _ _ h => hs.supplied h) fun _ _ h => hs.supplied h
  next? expected budget s hs := (next?_supplied s expected budget).mono
    (fun _ _ h => hs.supplied h) fun _ _ h => hs.supplied h
  listen action id budget s hs := (listen_supplied s action id budget).mono
    (fun _ _ h => hs.supplied h) fun _ _ h => hs.supplied h
  closed s _ := consistent_closed s
  noted _ hs _ _ _ := hs.imp
    (fun ⟨l, H, haccepted⟩ => ⟨l, ⟨H.link, H.address, H.dialed, H.opened, H.parked⟩, haccepted⟩)
    fun h => h

/-- Sessions are consistent after every run of operations, on every wire and whatever the outcomes.
If a channel is open, it was opened by dialing the address of the session under its id, at a point
of its history, and no other channel has its number; a registration that was sent on it was accepted
on it; and all that is parked was received on it. If none is open, nothing is parked. -/
theorem session_consistent (id : String) (location : Option Location) (options : SessionOptions)
    (wire : W.State) (ops : List Operation) :
    let s := (start id location options wire).after ops
    (∀ l, s.link = some l →
      (∃ t w, t.id = s.id ∧ exec (dial s.address) t = (.ok l, t.dialed s.address w) ∧
        (t.dialed s.address w).history <:+ s.history) ∧
      (∀ address id, .opened l.number address id ∈ s.history ↔ address = s.address ∧ id = s.id) ∧
      Accepted s.history l.number s.address s.id ∧
      ∀ p ∈ s.inbox.contents, .received l.number p ∈ s.history) ∧
    (s.link = none → s.inbox = .empty) := by
  intro s
  have hledger : s.Accounted := accounted_after id location options wire ops
  have H : s.Consistent :=
    consistent_keeps.after (s := start id location options wire) (.inr ⟨rfl, rfl⟩) ops
  refine ⟨fun l hl => ?_, fun hl => ?_⟩
  · obtain ⟨l', H, haccepted⟩ | ⟨hnone, -⟩ := H
    · cases H.link.symm.trans hl
      refine ⟨H.dialed, fun address id => ⟨fun h => Ledger.eq_of_opened hledger h H.opened, ?_⟩,
        haccepted, H.parked⟩
      rintro ⟨rfl, rfl⟩
      exact H.opened
    · exact nomatch hnone.symm.trans hl
  · obtain ⟨l', H, -⟩ | ⟨-, hempty⟩ := H
    · exact nomatch hl.symm.trans H.link
    · exact hempty

/-- A session that the broker "A" sends on to the broker "B", which delivers a publication before it
accepts the registration. -/
def sentOn : Session Script.wire :=
  start "c" none ⟨100, 100, 100, 3⟩ (Script.start [] (Table.insert (Table.insert ∅ "a:1"
    [.deliver [(0, .payload (.disconnect .wrongBroker (some ⟨"B", "b:1"⟩)))]]) "b:1"
    [.deliver [(0, .payload (.publish ⟨⟨"x"⟩, .undefined, "1"⟩)),
      (5, .payload (.connAck .success))]])
    0)

/-- It ends at "B", where it registered and where the publication in its inbox comes from. -/
theorem sentOn_consistent : ∃ l, (sentOn.after [.connect "a:1"]).link = some l ∧
    Accepted (sentOn.after [.connect "a:1"]).history l.number "b:1" "c" ∧
    ∃ p ∈ (sentOn.after [.connect "a:1"]).inbox.contents,
      .received l.number p ∈ (sentOn.after [.connect "a:1"]).history := by
  have hconnected : (sentOn.after [.connect "a:1"]).link.isSome := by decide +kernel
  obtain ⟨l, hl⟩ := Option.isSome_iff_exists.1 hconnected
  obtain ⟨-, -, haccepted, hparked⟩ := (session_consistent "c" none ⟨100, 100, 100, 3⟩
    sentOn.wire [.connect "a:1"]).1 l hl
  have haddress : (sentOn.after [.connect "a:1"]).address = "b:1" := by decide +kernel
  have hid : (sentOn.after [.connect "a:1"]).id = "c" := by decide +kernel
  have hlength : 0 < (sentOn.after [.connect "a:1"]).inbox.contents.length := by decide +kernel
  obtain ⟨p, hp⟩ := List.exists_mem_of_length_pos hlength
  exact ⟨l, hl, haddress ▸ hid ▸ haccepted, p, hp, hparked p hp⟩

end Session

end Geocast
