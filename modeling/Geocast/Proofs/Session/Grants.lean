import Geocast.Proofs.Session.Consistency

/-! # Grants are counted

The reply that grants a subscription does not say which one it grants. But what comes in on a
channel is read once at most (`Draws`), and a topic is tracked only when a grant was read for it. So
a session never tracks more than the channel in use granted, or than it tracked before (`Granted`);
every operation keeps this, a handoff included, which begins anew on its own channel
(`granted_after`). -/

namespace Geocast

/-- A grant that came in on the channel numbered `n`. -/
def WireEvent.grants (n : Nat) : WireEvent → Bool
  | received m p => m = n && p.isGrant
  | _ => false

/-- How many grants came in on the channel numbered `n`. -/
def grantsOn (n : Nat) (events : List WireEvent) : Nat := events.countP (·.grants n)

@[simp] theorem grantsOn_append (n : Nat) (events events' : List WireEvent) :
    grantsOn n (events ++ events') = grantsOn n events + grantsOn n events' :=
  List.countP_append

theorem grantsOn_received (n : Nat) (p : Payload) :
    grantsOn n [.received n p] = p.isGrant.toNat := by
  cases h : p.isGrant <;> simp [grantsOn, WireEvent.grants, h]

namespace Inbox

/-- The parked grants. -/
def grants (i : Inbox) : Nat := i.replies.countP Payload.isGrant

@[simp] theorem grants_empty : Inbox.empty.grants = 0 := rfl

theorem grants_park (i : Inbox) (p : Payload) :
    (i.park p).grants = i.grants + p.isGrant.toNat := by
  cases p with
  | publish => rfl
  | _ =>
    simp only [park, grants, List.countP_append, List.countP_singleton]
    cases Payload.isGrant _ <;> rfl

/-- A grant that is taken out is not parked any more. -/
theorem grants_of_take? {i i' : Inbox} {p : Payload} {expected : List PayloadKind}
    (h : i.take? expected = some (p, i')) : p.isGrant.toNat + i'.grants = i.grants := by
  rcases take?_cases h with ⟨hfound, rfl⟩ | ⟨-, -, q, ps, rfl, -, rfl⟩
  · obtain ⟨hp, front, behind, hreplies, hfront⟩ := List.find?_eq_some_iff_append.1 hfound
    have hrest : i.replies.eraseP (·.kind ∈ expected) = front ++ behind := by
      rw [hreplies, List.eraseP_append_right _ (fun q hq => by simpa using hfront q hq)]
      exact congrArg (front ++ ·) (List.eraseP_cons_of_pos hp)
    show p.isGrant.toNat + (i.replies.eraseP _).countP _ = i.replies.countP _
    rw [hrest, hreplies, List.countP_append, List.countP_append, List.countP_cons]
    cases p.isGrant <;> simp [Nat.add_assoc, Nat.add_comm]
  · exact Nat.zero_add _

end Inbox

namespace Session

variable {W : Wire} {α : Type} {o s s' s'' : Session W} {l : Link W} {n j k : Nat}

/-! ## Sending and waiting -/

/-- From `s` to `s'` the session only sent and waited, and it read `k` grants: these and those
parked at the end are no more than those parked at the beginning and those that came in on the
channel numbered `n`. -/
structure Draws (n k : Nat) (s s' : Session W) : Prop extends Steady s s' where
  events : ∃ events, s'.history = events ++ s.history ∧
    k + s'.inbox.grants ≤ s.inbox.grants + grantsOn n events

namespace Draws

theorem refl (n : Nat) (s : Session W) : Draws n 0 s s := ⟨.refl s, [], rfl, by simp [grantsOn]⟩

theorem trans (H : Draws n j s s') (H' : Draws n k s' s'') : Draws n (j + k) s s'' := by
  obtain ⟨events, hhistory, hdrawn⟩ := H.events
  obtain ⟨events', hhistory', hdrawn'⟩ := H'.events
  refine ⟨H.toSteady.trans H'.toSteady, events' ++ events, ?_, ?_⟩
  · rw [hhistory', hhistory, List.append_assoc]
  · rw [grantsOn_append]
    omega

/-- What was read may be forgotten. -/
theorem forget (H : Draws n k s s') : Draws n 0 s s' :=
  ⟨H.toSteady, H.events.imp fun _ h => ⟨h.1, by omega⟩⟩

/-- What happens on the wire or to the publications. -/
theorem silent (n : Nat) (s : Session W) (w : W.State) (ps : List Publication) :
    Draws n 0 s { s with wire := w, inbox := { s.inbox with publications := ps } } :=
  ⟨⟨rfl, rfl, rfl, rfl, rfl, rfl, rfl⟩, [], rfl, by simp [grantsOn, Inbox.grants]⟩

theorem uses (H : Draws n k s s') (hn : s.Uses n) : s'.Uses n := fun l hl => hn l (H.link ▸ hl)

/-- What comes in is read or parked. -/
theorem got (s : Session W) (n : Nat) (p : Payload) (w : W.State) :
    Draws n p.isGrant.toNat s (s.got n p w) ∧
    Draws n 0 s { s.got n p w with inbox := s.inbox.park p } := by
  refine ⟨⟨steady_got _ _ _ _ _, [.received n p], rfl, ?_⟩,
    ⟨steady_got .., [.received n p], rfl, ?_⟩⟩
  · refine Nat.le_of_eq ?_
    rw [grantsOn_received]
    exact Nat.add_comm ..
  · refine Nat.le_of_eq ?_
    rw [grantsOn_received, Inbox.grants_park, Nat.zero_add]

end Draws

/-- A wait that accepts a payload has read that one, and no wait has read more. -/
theorem Reception.draws {judge : Payload → Verdict α} {deadline : Nat}
    {r : Except SessionError (Option α)} (H : Reception judge deadline l s r s')
    (hread : ∀ a p, r = .ok (some a) → judge p = .accept a → k ≤ p.isGrant.toNat)
    (hunread : (∀ a, r ≠ .ok (some a)) → k = 0) : Draws l.number k s s' := by
  induction H with
  | spent =>
    cases hunread (by simp)
    exact .refl _ _
  | failed | silent =>
    cases hunread (by simp)
    exact .silent _ _ _ _
  | @accepted s p w a _ _ hj =>
    obtain ⟨hsteady, events, hhistory, hdrawn⟩ := (Draws.got s l.number p w).1
    have hk := hread a p rfl hj
    exact ⟨hsteady, events, hhistory, by omega⟩
  | @parked s p w r s' _ _ _ _ ih =>
    have H := (Draws.got s l.number p w).2.trans (ih hread hunread)
    rwa [Nat.zero_add] at H
  | @dropped s p w r s' _ _ _ _ ih =>
    have H := (Draws.got s l.number p w).1.forget.trans (ih hread hunread)
    rwa [Nat.zero_add] at H

theorem send_draws (n : Nat) (s : Session W) (p : Payload) :
    Ends s (send p) (fun _ s' => Draws n 0 s s') fun _ s' => Draws n 0 s s' := by
  refine ends_send (fun _ => .refl n s) (fun l w _ _ => ?_) fun l e w _ _ => ?_
  all_goals
    exact ⟨⟨rfl, rfl, rfl, rfl, rfl, rfl, rfl⟩, [.sent l.number l.address p], rfl, by simp⟩

theorem receive_draws (hn : s.Uses n) (judge : Payload → Verdict α) (budget : Nat) :
    Ends s (receive judge budget) (fun _ s' => Draws n 0 s s') fun _ s' => Draws n 0 s s' := by
  refine ends_receive (fun _ => .refl n s) (fun l a s' hl H => ?_) fun l e s' hl H => ?_
  all_goals
    obtain rfl := hn l hl
    exact H.draws (fun _ _ _ _ => Nat.zero_le _) fun _ => rfl

/-- The grants that a wait read. -/
def grantsRead (p : Option Payload) : Nat := p.elim 0 fun p => p.isGrant.toNat

theorem next?_draws (hn : s.Uses n) (expected : List PayloadKind) (budget : Nat) :
    Ends s (next? expected budget) (fun p s' => Draws n (grantsRead p) s s')
      fun _ s' => Draws n 0 s s' := by
  refine ends_next? (fun p i h => ?_) fun _ => ?_
  · refine ⟨⟨rfl, rfl, rfl, rfl, rfl, rfl, rfl⟩, [], rfl, ?_⟩
    exact Nat.le_of_eq (Inbox.grants_of_take? h)
  · refine ends_receive (fun _ => .refl n s) (fun l a s' hl H => ?_) fun l e s' hl H => ?_
    · obtain rfl := hn l hl
      refine H.draws (fun q p ha hj => ?_) fun hnone => ?_
      · cases ha
        unfold expecting at hj
        split at hj
        · cases hj
          exact Nat.le_refl _
        · cases hj
      · cases a with
        | none => rfl
        | some q => exact absurd rfl (hnone q)
    · obtain rfl := hn l hl
      exact H.draws (fun _ _ _ _ => Nat.zero_le _) fun _ => rfl

theorem await_draws (hn : s.Uses n) (expected : List PayloadKind) (budget : Nat)
    (awaited : String) : Ends s (await expected budget awaited)
      (fun p s' => Draws n p.isGrant.toNat s s') fun _ s' => Draws n 0 s s' := by
  rw [await, ends_bind]
  refine (next?_draws hn expected budget).mono (fun a s' h => ?_) fun _ _ h => h
  cases a with
  | none => exact h
  | some p => exact h

theorem listen_draws (hn : s.Uses n) (action : FunctionAction) (id : RequestId) (budget : Nat) :
    Ends s (listen action id budget) (fun _ s' => Draws n 0 s s') fun _ s' => Draws n 0 s s' := by
  have H (ps : List Publication) :
      Draws n 0 s { s with inbox := { s.inbox with publications := ps } } := .silent n s s.wire ps
  exact ends_listen (fun ps _ _ => H ps) fun ps _ => (receive_draws ((H ps).uses hn) _ _).mono
    (fun _ _ h => (H ps).trans h) fun _ _ h => (H ps).trans h

theorem register_draws (hn : s.Uses n) :
    Ends s register (fun _ s' => Draws n 0 s s') fun _ s' => Draws n 0 s s' := by
  refine registerRetrying_keeps (P := Draws n 0 s) (fun s₁ h => ?_) (fun _ _ h => h) 1 s (.refl n s)
  simp only [askToRegister, ends_bind, ends_get]
  refine (send_draws n s₁ _).mono (fun _ s₂ h' => ?_) fun _ _ h' => h.trans h'
  have h := h.trans h'
  exact (await_draws (h.uses hn) _ _ _).mono (fun _ _ h'' => h.trans h''.forget)
    fun _ _ h'' => h.trans h''

/-- Between a request that is sent and the reply that is read, no other grant is read. -/
theorem ask_draws (s : Session W) (r : Request) : Ends s r.ask
    (fun p s' => Steady s s' ∧ ∃ l events, s.link = some l ∧ s'.history = events ++ s.history ∧
      .sent l.number l.address r.payload ∈ events ∧
      p.isGrant.toNat + s'.inbox.grants ≤ s.inbox.grants + grantsOn l.number events)
    fun _ s' => ∀ n, s.Uses n → Draws n 0 s s' := by
  simp only [Request.ask, ends_bind, ends_get]
  refine ends_send (fun _ n _ => .refl n s) (fun l w hl _ => ?_) fun l e w hl _ n _ => ?_
  · have hsent (n : Nat) : Draws n 0 s
        { s with wire := w, history := .sent l.number l.address r.payload :: s.history } :=
      ⟨⟨rfl, rfl, rfl, rfl, rfl, rfl, rfl⟩, [.sent l.number l.address r.payload], rfl, by simp⟩
    refine (await_draws (uses_of_link (by exact hl)) _ _ _).mono (fun p s' h => ?_)
      fun _ s' h n hn => ?_
    · obtain ⟨events, hhistory, hdrawn⟩ := h.events
      refine ⟨(hsent 0).toSteady.trans h.toSteady, l,
        events ++ [.sent l.number l.address r.payload], hl, ?_, by simp, ?_⟩
      · rw [hhistory, List.append_assoc]
        rfl
      · rw [grantsOn_append]
        exact Nat.le_trans hdrawn (Nat.add_le_add_left (Nat.le_add_right ..) _)
    · obtain rfl := hn l hl
      exact (hsent _).trans h
  · exact ⟨⟨rfl, rfl, rfl, rfl, rfl, rfl, rfl⟩, [.sent l.number l.address r.payload], rfl, by simp⟩

/-! ## What was granted -/

/-- All that the session tracks, but for what it tracked `before`, was asked for on the channel of
`l`; and what it tracks and has parked is no more than what it tracked before, had `parked` then,
and was granted on that channel. -/
structure Granted (l : Link W) (events : List WireEvent) (before : Table Topic Geofence)
    (parked : Nat) (s : Session W) : Prop where
  asked : ∀ t g, s.subscriptions.get? t = some g →
    before.get? t = some g ∨ .sent l.number l.address (.subscribe t g) ∈ events
  counted : s.subscriptions.size + s.inbox.grants ≤
    before.size + parked + grantsOn l.number events

theorem Granted.trans {events events' : List WireEvent} {before : Table Topic Geofence}
    (H : Granted l events before k s) (H' : Granted l events' s.subscriptions s.inbox.grants s') :
    Granted l (events' ++ events) before k s' where
  asked t g h := by
    rcases H'.asked t g h with h | h
    · exact (H.asked t g h).imp_right (List.mem_append_right events')
    · exact .inr (List.mem_append_left events h)
  counted := by
    have hcounted := H.counted
    have hcounted' := H'.counted
    rw [grantsOn_append]
    omega

/-- From `s` to `s'` the session kept its channel, and tracks nothing that was not granted there. -/
structure Earns (s s' : Session W) : Prop where
  link : s'.link = s.link
  events : ∃ events, s'.history = events ++ s.history ∧
    ∀ l, s.link = some l → Granted l events s.subscriptions s.inbox.grants s'

namespace Earns

/-- A session on its channel that reads grants and tracks nothing new. -/
theorem of_draws (hn : s.Uses n) (H : Draws n k s s') : Earns s s' := by
  obtain ⟨events, hhistory, hdrawn⟩ := H.events
  refine ⟨H.link, events, hhistory, fun l hl => ?_⟩
  obtain rfl := hn l hl
  refine ⟨fun t g ht => .inl (H.subscriptions ▸ ht), ?_⟩
  rw [H.subscriptions]
  omega

/-- What reads nothing, and tracks nothing that was not tracked. -/
theorem quiet (hlink : s'.link = s.link) (hhistory : s.history <:+ s'.history)
    (hinbox : s'.inbox = s.inbox) (hsize : s'.subscriptions.size ≤ s.subscriptions.size)
    (htracked : ∀ t g, s'.subscriptions.get? t = some g → s.subscriptions.get? t = some g) :
    Earns s s' := by
  obtain ⟨events, hevents⟩ := hhistory
  refine ⟨hlink, events, hevents.symm, fun l _ => ⟨fun t g h => .inl (htracked t g h), ?_⟩⟩
  rw [hinbox]
  omega

end Earns

/-- Since `o`, the session stayed on its channel or opened the one in use; and what it tracks was
granted there, but for what it tracked before and did not leave. -/
def GrantedSince (o s : Session W) : Prop :=
  ∃ events, s.history = events ++ o.history ∧ ∀ l, s.link = some l →
    (o.link = some l ∧ Granted l events o.subscriptions o.inbox.grants s) ∨
    (∃ id, .opened l.number l.address id ∈ events) ∧ Granted l events ∅ 0 s

namespace GrantedSince

theorem refl (s : Session W) : GrantedSince s s :=
  ⟨[], rfl, fun _ hl => .inl ⟨hl, fun _ _ h => .inl h, Nat.le_add_right ..⟩⟩

theorem earns (H : GrantedSince o s) (h : Earns s s') : GrantedSince o s' := by
  obtain ⟨events, hhistory, hgranted⟩ := H
  obtain ⟨more, hmore, hearned⟩ := h.events
  refine ⟨more ++ events, by rw [hmore, hhistory, List.append_assoc], fun l hl => ?_⟩
  have hl : s.link = some l := h.link ▸ hl
  rcases hgranted l hl with ⟨ho, H⟩ | ⟨⟨id, hopened⟩, H⟩
  · exact .inl ⟨ho, H.trans (hearned l hl)⟩
  · exact .inr ⟨⟨id, List.mem_append_right more hopened⟩, H.trans (hearned l hl)⟩

theorem history (H : GrantedSince o s) : o.history <:+ s.history :=
  H.imp fun _ h => h.1.symm

theorem of_unlinked (hhistory : o.history <:+ s.history) (hl : s.link = none) :
    GrantedSince o s := by
  obtain ⟨events, hevents⟩ := hhistory
  refine ⟨events, hevents.symm, fun l hl' => ?_⟩
  cases hl.symm.trans hl'

theorem of_closed (hhistory : o.history <:+ s.history) : GrantedSince o s.closed :=
  .of_unlinked (hhistory.trans (history_closed s)) (closed_link s)

end GrantedSince

/-! ## New channels -/

/-- Since `o`, the session opened the channel in use, and has no grant parked that did not come in
on it. -/
def Relinked (o s : Session W) : Prop :=
  ∃ l events id, s.link = some l ∧ s.history = events ++ o.history ∧
    .opened l.number l.address id ∈ events ∧ s.inbox.grants ≤ grantsOn l.number events

theorem Relinked.grantedSince (H : Relinked o s) (hs : s.subscriptions = ∅) : GrantedSince o s := by
  obtain ⟨l, events, id, hl, hhistory, hopened, hparked⟩ := H
  refine ⟨events, hhistory, fun l' hl' => ?_⟩
  cases hl.symm.trans hl'
  refine .inr ⟨⟨id, hopened⟩, fun t g h => ?_, ?_⟩
  · rw [hs, Table.get?_empty] at h
    cases h
  · rw [hs, Table.size_empty]
    omega

/-- A session that opened a channel since `o` and closed those before registers on it. -/
theorem register_relinks {t : Session W} (ht : o.history <:+ t.history) (address : String)
    (c : W.Channel) (w : W.State) {s : Session W}
    (hhistory : (t.dialed address w).history <:+ s.history) (hi : s.inbox = .empty) :
    Ends { s with link := some ⟨c, t.opened, address⟩, address := address } register
      (fun _ s' => Relinked o s' ∧ s'.subscriptions = s.subscriptions)
      fun _ s' => o.history <:+ s'.history := by
  obtain ⟨events, hevents⟩ := ht
  obtain ⟨more, hmore⟩ := hhistory
  have hs : s.history = (more ++ .opened t.opened address t.id :: events) ++ o.history := by
    rw [← hmore, dialed, ← hevents, List.append_assoc]
    rfl
  refine (register_draws (uses_of_link (by rfl))).mono (fun _ s' h => ?_) fun _ s' h => ?_
  · obtain ⟨events', hevents', hdrawn⟩ := h.events
    refine ⟨⟨_, events' ++ (more ++ .opened t.opened address t.id :: events), t.id, h.link, ?_,
      by simp, ?_⟩, h.subscriptions⟩
    · rw [hevents', List.append_assoc, ← hs]
    · rw [hi, Inbox.grants_empty] at hdrawn
      rw [grantsOn_append]
      omega
  · obtain ⟨events', hevents', -⟩ := h.events
    exact ⟨_, by rw [hevents', hs, ← List.append_assoc]⟩

theorem hopUntilAccepted_relinks (limit hops : Nat) (target : BrokerInfo)
    (hs : o.history <:+ s.history) :
    Ends s (hopUntilAccepted limit hops target) (fun _ s' => Relinked o s') fun _ _ => True := by
  induction hops generalizing target s with
  | zero => exact trivial
  | succ hops ih =>
    simp only [hopUntilAccepted, handoff, ends_bind, ends_leave, ends_inHandoff, ends_closeChannel,
      ends_modify]
    refine ends_dial (fun c w _ => ?_) fun _ _ _ => trivial
    have hrelinked := register_relinks (t := s.left target) (left_history s target ▸ hs)
      target.address c w (history_closed _) (closed_inbox _)
    refine hrelinked.mono (fun a s₁ h => ?_) fun _ _ _ => trivial
    cases a with
    | accepted => exact h.1
    | redirected next =>
      obtain ⟨⟨_, events, _, _, hhistory, _, _⟩, _⟩ := h
      exact ih next ⟨events, hhistory.symm⟩

theorem Relinked.movedFrom (H : Relinked o s) (origin : Session W) :
    GrantedSince o (s.movedFrom origin) := by
  unfold Session.movedFrom
  split
  · next l' _ =>
    obtain ⟨l, events, id, hl, hhistory, hopened, hparked⟩ := H
    refine Relinked.grantedSince ⟨l, .closed l'.number l'.address :: events, id, hl,
      congrArg _ hhistory, List.mem_cons_of_mem _ hopened, ?_⟩ rfl
    simpa [grantsOn, WireEvent.grants] using hparked
  · exact Relinked.grantedSince H rfl

/-- A session that moves begins anew; one that is put back tracks what it did. -/
theorem followRedirects_granted (target : BrokerInfo) :
    Keeps (W := W) (GrantedSince o) (fun _ => GrantedSince o) (followRedirects target) := by
  intro s hs
  have hmoved : Ends s (followRedirects target) (fun _ s' => GrantedSince o s')
      fun _ _ => True := by
    rw [ends_followRedirects]
    exact (hopUntilAccepted_relinks _ _ target (s := { s with link := none, inbox := .empty })
      hs.history).mono (fun _ _ h => h.movedFrom s) fun _ _ _ => trivial
  refine (hmoved.and (followRedirects_cases target s)).mono (fun _ _ h => h.1) fun _ s' h => ?_
  have hback := h.2
  obtain ⟨events, hhistory, -⟩ := hback.events
  refine hs.earns (.quiet hback.link ⟨events, hhistory.symm⟩ hback.inbox ?_ fun t g ht => ?_)
  · exact Nat.le_of_eq (congrArg Table.size hback.subscriptions)
  · exact hback.subscriptions ▸ ht

/-! ## Operations -/

/-- A topic is tracked when a grant was read for it. -/
theorem perform_granted (r : Request) :
    Keeps (W := W) (GrantedSince o) (fun _ => GrantedSince o) r.perform := by
  intro s hs
  by_cases hr : r.Tracked s
  · exact ends_perform_of_tracked hr fun _ => hs
  obtain ⟨n, hn⟩ := s.exists_uses
  refine ends_perform hr ((ask_draws s r).mono (fun p s₁ h => ?_) fun _ s₁ h =>
    hs.earns (.of_draws hn (h n hn)))
  obtain ⟨hsteady, l, events, hl, hhistory, hsent, hdrawn⟩ := h
  have hs₁ : GrantedSince o s₁ :=
    hs.earns (.of_draws (uses_of_link hl) ⟨hsteady, events, hhistory, hdrawn⟩)
  unfold Request.conclude
  split
  case h_1 t g =>
    have hdrawn : 1 + s₁.inbox.grants ≤ s.inbox.grants + grantsOn l.number events := hdrawn
    have hsize := s₁.subscriptions.size_insert_le t g
    rw [hsteady.subscriptions] at hsize
    refine hs.earns ⟨hsteady.link, events, hhistory, fun l' hl' => ?_⟩
    cases hl.symm.trans hl'
    refine ⟨fun t' g' ht' => ?_, ?_⟩
    · change (s₁.subscriptions.insert t g).get? t' = some g' at ht'
      rw [hsteady.subscriptions, Table.get?_insert] at ht'
      split at ht'
      · next heq =>
        cases heq
        cases ht'
        exact .inr hsent
      · exact .inl ht'
    · dsimp only
      rw [hsteady.subscriptions]
      omega
  case h_6 location target =>
    simp only [moveTo, ends_bind, ends_modify]
    exact followRedirects_granted target _ (hs₁.earns (.quiet rfl List.suffix_rfl rfl
      (Nat.le_refl _) fun _ _ h => h))
  case h_7 location =>
    simp only [moveTo, ends_bind, ends_modify, ends_closeChannel, ends_throw]
    have hmoved : GrantedSince o { s₁ with location := some location } :=
      hs₁.earns (.quiet rfl List.suffix_rfl rfl (Nat.le_refl _) fun _ _ h => h)
    exact .of_closed hmoved.history
  case h_2 t | h_3 t =>
    refine hs₁.earns (.quiet rfl List.suffix_rfl rfl (Table.size_erase_le ..) fun t' g' ht' => ?_)
    rw [Table.get?_erase] at ht'
    split at ht'
    · cases ht'
    · exact ht'
  case h_4 =>
    exact hs₁.earns (.quiet rfl List.suffix_rfl rfl (Nat.zero_le _) fun _ _ h => by cases h)
  case h_5 =>
    exact hs₁.earns (.quiet rfl List.suffix_rfl rfl (Nat.le_refl _) fun _ _ h => h)
  all_goals exact hs₁

theorem connect_granted (address : String) :
    Keeps (W := W) (GrantedSince o) (fun _ => GrantedSince o) (connect address) := by
  intro s hs
  have hhistory : o.history <:+ s.closed.history := hs.history.trans (history_closed s)
  simp only [connect, ends_bind, ends_closeChannel, ends_modify, ends_tryCatch, ends_throw]
  refine ends_dial (fun c w h => ?_) fun e w _ => ?_
  · have hrelinked := register_relinks (t := { s.closed with
      visited := [], subscriptions := ∅, address := address }) hhistory address c w
      List.suffix_rfl (closed_inbox s)
    refine hrelinked.mono (fun a s₁ h => ?_) fun _ s₁ h => .of_closed h
    have hs₁ : GrantedSince o s₁ := h.1.grantedSince h.2
    cases a with
    | accepted => exact hs₁
    | redirected next =>
      exact (followRedirects_granted next s₁ hs₁).mono (fun _ _ h => h)
        fun _ _ h => .of_closed h.history
  · exact .of_unlinked (hhistory.trans (List.suffix_cons _ _)) (closed_link s)

/-- Sending and waiting keep what is granted, whatever is read. -/
theorem Keeps.of_draws {x : Action W α} (h : ∀ n s, s.Uses n →
    Ends s x (fun _ s' => ∃ k, Draws n k s s') fun _ s' => Draws n 0 s s') :
    Keeps (GrantedSince o) (fun _ => GrantedSince o) x := by
  intro s hs
  obtain ⟨n, hn⟩ := s.exists_uses
  exact (h n s hn).mono (fun _ _ h => h.elim fun _ h => hs.earns (.of_draws hn h))
    fun _ _ h => hs.earns (.of_draws hn h)

theorem granted_keeps : OperationKeeps (W := W) (GrantedSince o) fun _ => GrantedSince o where
  connect := connect_granted
  disconnect s hs := by
    refine ends_disconnect hs (Keeps.of_draws (fun n s _ => (send_draws n s _).mono
      (fun _ _ h => ⟨0, h⟩) fun _ _ h => h) s hs) fun s' h => ?_
    exact .of_unlinked (h.history.trans (history_closed s')) (closed_link s')
  perform := perform_granted
  nextPublication budget := nextPublication_keeps
    (fun budget => .of_draws fun _ _ hn => (next?_draws hn _ budget).mono (fun _ _ h => ⟨_, h⟩)
      fun _ _ h => h) (fun _ hs _ => hs) budget
  listen action id budget := .of_draws fun _ _ hn => (listen_draws hn action id budget).mono
    (fun _ _ h => ⟨0, h⟩) fun _ _ h => h
  followRedirects := followRedirects_granted
  astray _ hs := ⟨hs, fun _ => hs⟩

/-- Whatever the operations of a run come to, what the session tracks at the end was granted on its
channel, but for what it tracked at the beginning and never left. -/
theorem granted_after (s : Session W) (ops : List Operation) : GrantedSince s (s.after ops) :=
  after_keeps (Q := fun _ => True) (fun _ o h _ => (granted_keeps.operation o).exec h) (.refl s)
    fun _ _ => trivial

end Session

end Geocast
