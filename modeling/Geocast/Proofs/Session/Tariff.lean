import Geocast.Proofs.Session.Numbering

/-! # What actions cost

A tariff counts some of the events of a session and puts a price on dialing and on sending. The
wire may hold a reserve, out of which it pays for what it releases without being paid for, so that
receiving is free: what is counted and the reserve together grow by no more than the price. Every
part of a call then has its price, whatever the wire does and whether it fails or not (`Spent`), and
so has the call (`call_spent`). -/

namespace Geocast

/-- Events that are counted, and prices that cover them. -/
structure Tariff (W : Wire) where
  counts : WireEvent → Bool
  reserve : W.State → Nat
  dialing : Nat
  price : Payload → Nat
  opened_le : ∀ {address id w c w'} (n : Nat), W.dial address id w = (.ok c, w') →
    (counts (.opened n address id)).toNat + reserve w' ≤ reserve w + dialing
  refused_le : ∀ {address id w e w'}, W.dial address id w = (.error e, w') →
    (counts (.refused address id)).toNat + reserve w' ≤ reserve w + dialing
  sent_le : ∀ (n : Nat) (address : String) (c : W.Channel) (p : Payload) (w : W.State),
    (counts (.sent n address p)).toNat + reserve (W.send c p w).2 ≤ reserve w + price p
  received_le : ∀ {c budget w p w'} (n : Nat), W.recv c budget w = (.ok (some p), w') →
    (counts (.received n p)).toNat + reserve w' ≤ reserve w
  idle_le : ∀ {c budget w r w'}, W.recv c budget w = (r, w') → reserve w' ≤ reserve w
  closed_le : ∀ (n : Nat) (address : String) (c : W.Channel) (w : W.State),
    (counts (.closed n address)).toNat + reserve (W.close c w) ≤ reserve w

namespace Session

variable {W : Wire} {α : Type} {T : Tariff W} {o s s' : Session W} {m m' k k' c : Nat}

/-- Since `o`, the session spent at most `k`; it tracks at most `m` subscriptions. -/
structure Spent (T : Tariff W) (o : Session W) (m k : Nat) (s : Session W) : Prop where
  events : ∃ events, s.history = events ++ o.history ∧
    events.countP T.counts + T.reserve s.wire ≤ T.reserve o.wire + k
  options : s.options = o.options
  tracked : s.subscriptions.size ≤ m

namespace Spent

theorem refl (T : Tariff W) (s : Session W) : Spent T s s.subscriptions.size 0 s :=
  ⟨⟨[], rfl, by simp⟩, rfl, Nat.le_refl _⟩

theorem mono (hm : m ≤ m') (hk : k ≤ k') (H : Spent T o m k s) : Spent T o m' k' s := by
  obtain ⟨events, hhistory, hcount⟩ := H.events
  exact ⟨⟨events, hhistory, by omega⟩, H.options, Nat.le_trans H.tracked hm⟩

/-- One event and what the wire does at it. -/
theorem event (H : Spent T o m k s) {e : WireEvent} {w : W.State}
    (h : (T.counts e).toNat + T.reserve w ≤ T.reserve s.wire + c)
    (hhistory : s'.history = e :: s.history) (hwire : s'.wire = w)
    (hoptions : s'.options = s.options) (htracked : s'.subscriptions = s.subscriptions) :
    Spent T o m (k + c) s' := by
  obtain ⟨events, hevents, hcount⟩ := H.events
  refine ⟨⟨e :: events, ?_, ?_⟩, hoptions.trans H.options, htracked ▸ H.tracked⟩
  · rw [hhistory, hevents, List.cons_append]
  · have hcons : (e :: events).countP T.counts = events.countP T.counts + (T.counts e).toNat := by
      rw [List.countP_cons]
      cases T.counts e <;> rfl
    rw [hwire, hcons]
    omega

/-- One event that need not be paid for. -/
theorem free (H : Spent T o m k s) {e : WireEvent} {w : W.State}
    (h : (T.counts e).toNat + T.reserve w ≤ T.reserve s.wire)
    (hhistory : s'.history = e :: s.history) (hwire : s'.wire = w)
    (hoptions : s'.options = s.options) (htracked : s'.subscriptions = s.subscriptions) :
    Spent T o m k s' :=
  H.event (c := 0) h hhistory hwire hoptions htracked

/-- What happens without an event. -/
theorem silent (H : Spent T o m k s) (hhistory : s'.history = s.history)
    (hwire : T.reserve s'.wire ≤ T.reserve s.wire) (hoptions : s'.options = s.options)
    (htracked : s'.subscriptions.size ≤ m') : Spent T o m' k s' := by
  obtain ⟨events, hevents, hcount⟩ := H.events
  exact ⟨⟨events, hhistory.trans hevents, by omega⟩, hoptions.trans H.options, htracked⟩

/-- Closing the channel is free. -/
theorem closed (H : Spent T o m k s) : Spent T o m k s.closed := by
  unfold Session.closed
  split
  · next l hl => exact H.free (T.closed_le l.number l.address l.channel s.wire) rfl rfl rfl rfl
  · exact H.silent rfl (Nat.le_refl _) rfl H.tracked

theorem left (H : Spent T o m k s) (target : BrokerInfo) : Spent T o m k (s.left target) := by
  unfold Session.left
  split <;> exact H.silent rfl (Nat.le_refl _) rfl H.tracked

/-- So is closing the channel that was left, and nothing is tracked then. -/
theorem movedFrom (H : Spent T o m k s') (s : Session W) : Spent T o 0 k (s'.movedFrom s) := by
  unfold Session.movedFrom
  split
  · next l _ =>
    have hclosed : Spent T o m k { s' with
        wire := W.close l.channel s'.wire
        history := .closed l.number l.address :: s'.history } :=
      H.free (T.closed_le l.number l.address l.channel s'.wire) rfl rfl rfl rfl
    exact hclosed.silent rfl (Nat.le_refl _) rfl (Nat.le_of_eq Table.size_empty)
  · exact H.silent rfl (Nat.le_refl _) rfl (Nat.le_of_eq Table.size_empty)

end Spent

theorem spending (T : Tariff W) (o : Session W) (m : Nat) :
    Spending (Spent T o m) fun k _ => Spent T o m k where
  mono h H := H.mono (Nat.le_refl m) h
  monoError h H := H.mono (Nat.le_refl m) h

/-- An action that spends at most `c`. -/
abbrev SpendsAtMost (T : Tariff W) (o : Session W) (m c : Nat) (x : Action W α) : Prop :=
  Costs (Spent T o m) (fun k _ => Spent T o m k) c x

theorem throw_spent (e : SessionError) :
    SpendsAtMost T o m c (throw e : Action W α) := fun _ _ H =>
  H.mono (Nat.le_refl m) (Nat.le_add_right ..)

theorem get_spent : SpendsAtMost T o m 0 (get : Action W (Session W)) := fun _ _ H => H

/-! ## Sending and waiting -/

theorem send_spent (p : Payload) : SpendsAtMost T o m (T.price p) (send p) := by
  intro k s H
  have hsent (l : Link W) := T.sent_le l.number l.address l.channel p s.wire
  refine ends_send (fun _ => H.mono (Nat.le_refl m) (Nat.le_add_right ..)) ?_ ?_
  · intro l w _ hw
    have hsent := hsent l
    rw [hw] at hsent
    exact H.event hsent rfl rfl rfl rfl
  · intro l e w _ hw
    have hsent := hsent l
    rw [hw] at hsent
    exact H.event hsent rfl rfl rfl rfl

theorem Spent.reception {judge : Payload → Verdict α} {deadline : Nat} {l : Link W}
    {r : Except SessionError (Option α)} (H : Spent T o m k s)
    (h : Reception judge deadline l s r s') : Spent T o m k s' := by
  induction h with
  | spent => exact H
  | failed _ hr | silent _ hr => exact H.silent rfl (T.idle_le hr) rfl H.tracked
  | accepted _ hr => exact H.free (T.received_le l.number hr) rfl rfl rfl rfl
  | parked _ hr _ _ ih | dropped _ hr _ _ ih =>
    exact ih (H.free (T.received_le l.number hr) rfl rfl rfl rfl)

theorem receive_spent (judge : Payload → Verdict α) (budget : Nat) :
    SpendsAtMost T o m 0 (receive judge budget) := by
  intro k s H
  exact ends_receive (fun _ => H) (fun _ _ _ _ h => H.reception h) fun _ _ _ _ h => H.reception h

theorem next?_spent (expected : List PayloadKind) (budget : Nat) :
    SpendsAtMost T o m 0 (next? expected budget) := by
  intro k s H
  exact ends_next? (fun _ _ _ => H.silent rfl (Nat.le_refl _) rfl H.tracked)
    fun _ => receive_spent _ _ k s H

theorem await_spent (expected : List PayloadKind) (budget : Nat) (awaited : String) :
    SpendsAtMost T o m 0 (await expected budget awaited) := by
  refine (spending T o m).bindFree (next?_spent expected budget) fun p => ?_
  split
  · exact (spending T o m).pure 0 _
  · exact throw_spent _

theorem listen_spent (action : FunctionAction) (request : RequestId) (budget : Nat) :
    SpendsAtMost T o m 0 (listen action request budget) := by
  intro k s H
  have hkept (ps : List Publication) :
      Spent T o m k { s with inbox := { s.inbox with publications := ps } } :=
    H.silent rfl (Nat.le_refl _) rfl H.tracked
  exact ends_listen (fun ps _ _ => hkept ps) fun ps _ => receive_spent _ _ k _ (hkept ps)

/-! ## Handing off -/

theorem askToRegister_spent (hc : ∀ location, T.price (.connect location) ≤ c) :
    SpendsAtMost T o m c askToRegister := by
  refine (spending T o m).bindFree get_spent fun s => ?_
  exact (spending T o m).thenFree ((spending T o m).le (send_spent _) (hc _)) fun _ =>
    await_spent _ _ _

theorem registerRetrying_spent (hc : ∀ location, T.price (.connect location) ≤ c)
    (retries : Nat) : SpendsAtMost T o m ((retries + 1) * c) (registerRetrying retries) := by
  have hend (r : Except SessionError Registration) : SpendsAtMost T o m 0 (ofOutcome r) :=
    fun k s H => ends_ofOutcome_of_forall s r (fun _ => H) fun _ => H
  induction retries with
  | zero =>
    rw [Nat.one_mul]
    exact (spending T o m).thenFree (askToRegister_spent hc) fun _ => hend _
  | succ retries ih =>
    rw [Nat.succ_mul, Nat.add_comm]
    refine (spending T o m).bind (askToRegister_spent hc) fun p => ?_
    split
    · exact ih
    · exact (spending T o m).le (hend _) (Nat.zero_le _)

/-- One hop dials once and asks at most twice to be registered. -/
theorem handoff_spent (hc : ∀ location, T.price (.connect location) ≤ c) (target : BrokerInfo) :
    SpendsAtMost T o m (T.dialing + 2 * c) (handoff target) := by
  intro k s H
  simp only [handoff, ends_bind, ends_leave, ends_inHandoff, ends_closeChannel, ends_modify]
  have hleft : Spent T o m k (s.left target) := H.left target
  refine ends_dial (fun ch w hw => ?_) fun e w hw => ?_
  · have hdialed : Spent T o m (k + T.dialing) { s.left target with
        wire := w
        history := .opened (s.left target).opened target.address (s.left target).id ::
          (s.left target).history } := hleft.event (T.opened_le _ hw) rfl rfl rfl rfl
    have hmoved : Spent T o m (k + T.dialing) { closed { s.left target with
        wire := w
        history := .opened (s.left target).opened target.address (s.left target).id ::
          (s.left target).history } with
        link := some ⟨ch, (s.left target).opened, target.address⟩, address := target.address } :=
      hdialed.closed.silent rfl (Nat.le_refl _) rfl hdialed.closed.tracked
    rw [← Nat.add_assoc]
    exact registerRetrying_spent hc 1 _ _ hmoved
  · refine (spending T o m).mono (Nat.add_le_add_left (Nat.le_add_right ..) k) ?_
    exact hleft.event (T.refused_le hw) rfl rfl rfl rfl

theorem hopUntilAccepted_spent (hc : ∀ location, T.price (.connect location) ≤ c)
    (limit hops : Nat) (target : BrokerInfo) :
    SpendsAtMost T o m (hops * (T.dialing + 2 * c)) (hopUntilAccepted limit hops target) := by
  induction hops generalizing target with
  | zero => exact throw_spent _
  | succ hops ih =>
    rw [Nat.succ_mul, Nat.add_comm]
    refine (spending T o m).bind (handoff_spent hc target) fun a => ?_
    cases a with
    | accepted => exact (spending T o m).pure _ _
    | redirected next => exact ih next

/-- A chain of redirects costs as much as its hops, and nothing is tracked at its end. -/
theorem followRedirects_spent (hc : ∀ location, T.price (.connect location) ≤ c)
    (target : BrokerInfo) (H : Spent T o m k s) :
    Ends s (followRedirects target)
      (fun _ => Spent T o 0 (k + o.options.maxHandoffHops * (T.dialing + 2 * c)))
      fun _ => Spent T o m (k + o.options.maxHandoffHops * (T.dialing + 2 * c)) := by
  have hlimit : o.options.maxHandoffHops = s.options.maxHandoffHops := by rw [H.options]
  rw [ends_followRedirects, hlimit]
  have hstart : Spent T o m k { s with link := none, inbox := .empty } :=
    H.silent rfl (Nat.le_refl _) rfl H.tracked
  exact (hopUntilAccepted_spent hc _ _ target k _ hstart).mono (fun _ _ h => h.movedFrom s)
    fun _ _ h => h.closed.silent rfl (Nat.le_refl _) rfl h.closed.tracked

/-! ## Subscribing and publishing -/

/-- A subscription is sent once at most, and one more is tracked then. -/
theorem subscribe_spent {q : Nat} (hq : ∀ t g, T.price (.subscribe t g) ≤ q) (t : Topic)
    (g : Geofence) (H : Spent T o m k s) : Ends s (subscribe t g)
      (fun _ => Spent T o (m + 1) (k + q)) fun _ => Spent T o (m + 1) (k + q) := by
  rw [subscribe, ends_bind, ends_get]
  split
  · exact H.mono (Nat.le_succ m) (Nat.le_add_right ..)
  · have hasked := (spending T o m).bind (send_spent (.subscribe t g)) fun _ =>
      await_spent [.subAck] s.options.ackTimeout "SUBACK"
    have hasked := (spending T o m).le hasked (hq t g) k s H
    rw [ends_bind] at hasked ⊢
    refine hasked.mono (fun _ s₁ h₁ => ?_) fun _ _ h => h.mono (Nat.le_succ m) (Nat.le_refl _)
    rw [ends_bind]
    refine h₁.mono (fun p s₂ h₂ => ?_) fun _ _ h => h.mono (Nat.le_succ m) (Nat.le_refl _)
    split
    · refine h₂.silent rfl (Nat.le_refl _) rfl ?_
      exact Nat.le_trans (Table.size_insert_le ..) (Nat.succ_le_succ h₂.tracked)
    · exact h₂.mono (Nat.le_succ m) (Nat.le_refl _)

theorem subscribeAll_spent {q : Nat} (hq : ∀ t g, T.price (.subscribe t g) ≤ q)
    (l : List (Topic × Geofence)) (H : Spent T o m k s) : Ends s (subscribeAll l)
      (fun _ => Spent T o (m + l.length) (k + l.length * q))
      fun _ => Spent T o (m + l.length) (k + l.length * q) := by
  induction l generalizing s m k with
  | nil => exact H.mono (Nat.le_refl m) (Nat.le_add_right ..)
  | cons x l ih =>
    obtain ⟨t, g⟩ := x
    have hlength : m + 1 + l.length = m + (l.length + 1) := by omega
    have hprice : k + q + l.length * q = k + (l.length + 1) * q := by
      rw [Nat.succ_mul]
      omega
    simp only [subscribeAll, ends_bind, List.length_cons, ← hlength, ← hprice]
    exact (subscribe_spent hq t g H).mono (fun _ _ h => ih h)
      fun _ _ h => h.mono (Nat.le_add_right ..) (Nat.le_add_right ..)

theorem publish_spent (t : Topic) (g : Geofence) (content : String) :
    SpendsAtMost T o m (T.price (.publish ⟨t, g, content⟩)) (publish t g content) := by
  have H := spending T o m
  refine H.thenFree (send_spent _) fun _ => H.bindFree get_spent fun s =>
    H.bindFree (await_spent _ _ _) fun p => ?_
  split
  · exact H.pure 0 _
  · exact H.pure 0 _
  · exact throw_spent _

/-- Each time it is published, a publication may be redirected along one chain, and all that is
tracked may be subscribed to anew. -/
theorem publishFollowing_spent {p q : Nat} {t : Topic} {g : Geofence} {content : String}
    (hc : ∀ location, T.price (.connect location) ≤ c) (hq : ∀ t g, T.price (.subscribe t g) ≤ q)
    (hp : T.price (.publish ⟨t, g, content⟩) ≤ p) (limit times : Nat) :
    SpendsAtMost T o m
      (times * (p + (o.options.maxHandoffHops * (T.dialing + 2 * c) + m * q)))
      (publishFollowing limit t g content times) := by
  induction times with
  | zero => exact throw_spent _
  | succ times ih =>
    rw [Nat.succ_mul, Nat.add_comm, Nat.add_assoc]
    refine (spending T o m).bind ((spending T o m).le (publish_spent t g content) hp)
      fun answer => ?_
    split
    · exact (spending T o m).pure _ _
    · next target =>
      intro k s H
      simp only [ends_bind, ends_get]
      refine (followRedirects_spent hc target H).mono (fun _ s₁ h₁ => ?_)
        fun _ _ h => h.mono (Nat.le_refl m) (by omega)
      have hwanted : s.subscriptions.entries.length ≤ m := H.tracked
      have hprice := Nat.mul_le_mul_right q hwanted
      refine (subscribeAll_spent hq s.subscriptions.entries h₁).mono (fun _ s₂ h₂ => ?_)
        fun _ _ h => h.mono (by omega) (by omega)
      have h₂ := ih _ s₂ (h₂.mono (by omega) (Nat.add_le_add_left hprice _))
      refine h₂.mono (fun _ _ h => ?_) fun _ _ h => ?_
      · exact h.mono (Nat.le_refl m) (by omega)
      · exact h.mono (Nat.le_refl m) (by omega)
    · exact throw_spent _

theorem publishCall_spent {p q : Nat} {r : CallRequest} {content : String} {t : Topic}
    (hc : ∀ location, T.price (.connect location) ≤ c) (hq : ∀ t g, T.price (.subscribe t g) ≤ q)
    (hp : T.price (.publish ⟨t, r.pubFence, content⟩) ≤ p) :
    SpendsAtMost T o m ((o.options.maxHandoffHops + 1) *
        (p + (o.options.maxHandoffHops * (T.dialing + 2 * c) + m * q)))
      (publishCall r content t) := by
  intro k s H
  have hlimit : s.options.maxHandoffHops = o.options.maxHandoffHops := by rw [H.options]
  rw [publishCall, ends_bind, ends_get, hlimit]
  refine (spending T o m).thenFree (publishFollowing_spent hc hq hp _ _) (fun reason => ?_) k s H
  split <;> exact (spending T o m).pure 0 _

/-! ## Calls -/

theorem subscribe_id (t : Topic) (g : Geofence) (s : Session W) :
    Ends s (subscribe t g) (fun _ s' => s'.id = s.id) fun _ _ => True := by
  obtain ⟨n, hn⟩ := s.exists_uses
  refine ends_subscribe (fun _ => rfl) fun _ => ?_
  exact (ask_traffic hn _).mono (fun _ _ h => ⟨fun _ => h.id, fun _ => trivial⟩)
    fun _ _ _ => trivial

/-- What a call costs, in terms of what connecting, subscribing and publishing the call cost. -/
theorem call_spent {p q : Nat} {r : CallRequest} {s : Session W}
    (hc : ∀ location, T.price (.connect location) ≤ c) (hq : ∀ t g, T.price (.subscribe t g) ≤ q)
    (hp : ∀ t ∈ r.topics,
      T.price (.publish ⟨t, r.pubFence, (callMessage r s.id).encode⟩) ≤ p) :
    Spent T s (s.subscriptions.size + 2) (2 * q + (r.retries + 1) * (r.tries *
      ((s.options.maxHandoffHops + 1) * (p + (s.options.maxHandoffHops * (T.dialing + 2 * c) +
        (s.subscriptions.size + 2) * q))))) (exec (call r) s).2 := by
  apply Ends.exec
  have hmore {k k' : Nat} (h : k ≤ k') {m : Nat} (hm : m ≤ s.subscriptions.size + 2)
      {s' : Session W} (H : Spent T s m k s') : Spent T s (s.subscriptions.size + 2) k' s' :=
    H.mono hm h
  simp only [call, ends_bind, ends_get]
  refine ((subscribe_spent hq _ _ (.refl T s)).and (subscribe_id _ _ s)).mono (fun _ s₁ h₁ => ?_)
    fun _ _ h => hmore (by omega) (by omega) h.1
  refine ((subscribe_spent hq _ _ h₁.1).and (subscribe_id _ _ s₁)).mono (fun _ s₂ h₂ => ?_)
    fun _ _ h => hmore (by omega) (by omega) h.1
  have hid : s₂.id = s.id := h₂.2.trans h₁.2
  rw [hid]
  have hcosts : CallCosts r (callMessage r s.id).encode (Spent T s (s.subscriptions.size + 2))
      (fun k _ => Spent T s (s.subscriptions.size + 2) k) _ := {
    toSpending := spending T s _
    publishCall := fun t ht => publishCall_spent hc hq (hp t ht)
    listen := fun action budget => listen_spent action r.request budget }
  refine (hcosts.attempt _ _ _ _ s₂ h₂.1).mono (fun _ _ h => ?_) fun _ _ h => ?_
  · exact hmore (by omega) (Nat.le_refl _) h
  · exact hmore (by omega) (Nat.le_refl _) h

end Session

end Geocast
