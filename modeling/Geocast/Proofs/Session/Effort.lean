import Geocast.Proofs.Session.Listening
import Geocast.Proofs.Session.Roaming
import Geocast.Proofs.Session.Tariff
import Mathlib.Tactic.Ring

/-! # The effort of a call

A call returns nothing but a result of its own (`ends_call_answer`), and what it does on its wire to
get one is bounded by the request, the number of redirects that the session follows in a row and
what it tracks. Neither endless redirects nor a broker that never answers can make it publish, send,
dial or receive more (`call_bounded`). Each bound is the cost of the call by a tariff of its own. -/

namespace Geocast

namespace WireEvent

/-- The publication that was sent. -/
def published? : WireEvent → Option Publication
  | sent _ _ (.publish p) => some p
  | _ => none

def isSent : WireEvent → Bool
  | sent .. => true
  | _ => false

def isReceived : WireEvent → Bool
  | received .. => true
  | _ => false

end WireEvent

/-- The publications that were sent, the newest first. -/
def published (events : List WireEvent) : List Publication :=
  events.filterMap WireEvent.published?

/-- The wire releases at most `k` payloads upon each that is sent, and none otherwise. -/
structure Wire.Releases (W : Wire) (k : Nat) : Prop where
  dial : ∀ address id w, W.pending (W.dial address id w).2 ≤ W.pending w
  send : ∀ c p w, W.pending (W.send c p w).2 ≤ W.pending w + k
  recv : ∀ c budget w, W.pending (W.recv c budget w).2 ≤ W.pending w
  close : ∀ c w, W.pending (W.close c w) ≤ W.pending w

namespace Tariff

variable {W : Wire}

/-- Counts the payloads of one sort that are sent, at one each. -/
def ofSent (W : Wire) (sort : Payload → Bool) : Tariff W where
  counts
    | .sent _ _ p => sort p
    | _ => false
  reserve _ := 0
  dialing := 0
  price p := (sort p).toNat
  opened_le _ _ := Nat.le_refl 0
  refused_le _ := Nat.le_refl 0
  sent_le _ _ _ _ _ := Nat.le_of_eq (Nat.add_comm ..)
  received_le _ _ := Nat.le_refl 0
  idle_le _ := Nat.le_refl 0
  closed_le _ _ _ _ := Nat.le_refl 0

/-- Counts what is dialed. -/
def ofDialed (W : Wire) : Tariff W where
  counts e := e.dialed?.isSome
  reserve _ := 0
  dialing := 1
  price _ := 0
  opened_le _ _ := Nat.le_refl 1
  refused_le _ := Nat.le_refl 1
  sent_le _ _ _ _ _ := Nat.le_refl 0
  received_le _ _ := Nat.le_refl 0
  idle_le _ := Nat.le_refl 0
  closed_le _ _ _ _ := Nat.le_refl 0

/-- Counts what is received. It was on its way before, or is paid for by what was sent. -/
def ofReceived {k : Nat} (H : W.Releases k) : Tariff W where
  counts := WireEvent.isReceived
  reserve := W.pending
  dialing := 0
  price _ := k
  opened_le {address id w c w'} _ h := by
    have hdial := H.dial address id w
    rw [h] at hdial
    simpa [WireEvent.isReceived] using hdial
  refused_le {address id w e w'} h := by
    have hdial := H.dial address id w
    rw [h] at hdial
    simpa [WireEvent.isReceived] using hdial
  sent_le _ _ c p w := by simpa [WireEvent.isReceived] using H.send c p w
  received_le {c budget w p w'} _ h := by
    have hrecv : W.pending w' < W.pending w := by
      have hrecv := W.pending_recv c budget w p (by rw [h])
      rwa [h] at hrecv
    show 1 + W.pending w' ≤ W.pending w
    omega
  idle_le {c budget w r w'} h := by
    have hrecv := H.recv c budget w
    rwa [h] at hrecv
  closed_le _ _ c w := by simpa [WireEvent.isReceived] using H.close c w

end Tariff

namespace Session

variable {W : Wire}

/-! ## Answers -/

theorem ends_listen_answer (s : Session W) (action : FunctionAction) (request : RequestId)
    (budget : Nat) : Ends s (listen action request budget)
      (fun m _ => ∀ m', m = some m' → m'.action = action ∧ m'.request = request)
      fun _ _ => True := by
  refine (ends_listen_sifted s action request budget).mono ?_ fun _ _ _ => trivial
  rintro m s' ⟨_, _, answer, _, H⟩ m' rfl
  have hreturns := H.returns
  cases answer with
  | none => exact absurd rfl (hreturns m')
  | some p =>
    obtain ⟨_, hm, -, hcarries⟩ := hreturns
    cases hm
    exact hcarries

/-- What answers a call. -/
def IsResultOf (request : RequestId) (m : FunctionMessage) : Prop :=
  m.action = .result ∧ m.request = request

theorem ends_awaitAck_answer (s : Session W) (request : RequestId) (budget : Nat) :
    Ends s (awaitAck request budget)
      (fun a _ => ∀ m, a = .result m → IsResultOf request m) fun _ _ => True := by
  rw [awaitAck, ends_bind]
  refine ends_of_forall (fun ack s₁ => ?_) fun _ _ => trivial
  cases ack with
  | some m => simp
  | none =>
    simp only [Option.isSome_none, Bool.false_eq_true, if_false, ends_bind]
    refine (ends_listen_answer s₁ .result request 0).mono (fun result s₂ h => ?_)
      fun _ _ _ => trivial
    cases result with
    | some m =>
      intro m' hm'
      cases hm'
      exact h m rfl
    | none =>
      rw [ends_bind]
      refine ends_of_forall (fun nack s₃ => ?_) fun _ _ => trivial
      cases nack <;> simp

theorem ends_solicit_answer (s : Session W) (r : CallRequest) (content : String)
    (ackTimeout : Nat) (t : Topic) (times : Nat) : Ends s (solicit r content ackTimeout t times)
      (fun o _ => ∀ m, o = .answered m → IsResultOf r.request m) fun _ _ => True := by
  induction times generalizing s with
  | zero => simp [solicit]
  | succ times ih =>
    rw [solicit, ends_bind]
    refine ends_of_forall (fun delivery s₁ => ?_) fun _ _ => trivial
    cases delivery with
    | delivered =>
      simp only [ends_bind]
      refine (ends_awaitAck_answer s₁ _ _).mono (fun a s₂ h => ?_) fun _ _ _ => trivial
      cases a with
      | result m =>
        intro m' hm'
        cases hm'
        exact h m rfl
      | silent => exact ih s₂
      | _ => simp
    | _ => simp

theorem ends_solicitAnywhere_answer (s : Session W) (r : CallRequest) (content : String)
    (ackTimeout : Nat) : Ends s (solicitAnywhere r content ackTimeout)
      (fun o _ => ∀ m, o = .answered m → IsResultOf r.request m) fun _ _ => True := by
  rw [solicitAnywhere, ends_bind]
  refine (ends_solicit_answer s r content ackTimeout _ _).mono (fun o s₁ h => ?_)
    fun _ _ _ => trivial
  cases o with
  | unacknowledged =>
    dsimp only
    split
    · exact ends_solicit_answer s₁ r content ackTimeout _ 1
    · exact h
  | _ => exact h

theorem ends_attempt_answer (s : Session W) (r : CallRequest) (content : String)
    (ackTimeout resultTimeout times : Nat) :
    Ends s (attempt r content ackTimeout resultTimeout times)
      (fun a _ => ∀ m, a = some m → IsResultOf r.request m) fun _ _ => True := by
  induction times generalizing s with
  | zero => simp [attempt]
  | succ times ih =>
    rw [attempt, ends_bind]
    refine (ends_solicitAnywhere_answer s r content ackTimeout).mono (fun o s₁ h => ?_)
      fun _ _ _ => trivial
    cases o with
    | answered m =>
      intro m' hm'
      cases hm'
      exact h m rfl
    | unknownHere => simp
    | unacknowledged => exact ih s₁
    | acknowledged =>
      simp only [ends_bind]
      refine (ends_listen_answer s₁ .result r.request resultTimeout).mono (fun result s₂ h => ?_)
        fun _ _ _ => trivial
      cases result with
      | some m => exact h
      | none => exact ih s₂

/-- A call returns nothing but a result of its own. -/
theorem ends_call_answer (s : Session W) (r : CallRequest) : Ends s (call r)
    (fun a _ => ∀ m, a = some m → IsResultOf r.request m) fun _ _ => True := by
  simp only [call, ends_bind, ends_get]
  refine ends_of_forall (fun _ s₁ => ?_) fun _ _ => trivial
  refine ends_of_forall (fun _ s₂ => ?_) fun _ _ => trivial
  exact ends_attempt_answer s₂ r _ _ _ _

/-! ## Bounds -/

/-- A tariff bounds what it counts of the events of a call. -/
theorem countP_call_le {T : Tariff W} {r : CallRequest} {s : Session W} {events : List WireEvent}
    {c p q : Nat} (hhistory : (exec (call r) s).2.history = events ++ s.history)
    (hc : ∀ location, T.price (.connect location) ≤ c) (hq : ∀ t g, T.price (.subscribe t g) ≤ q)
    (hp : ∀ t ∈ r.topics, T.price (.publish ⟨t, r.pubFence, (callMessage r s.id).encode⟩) ≤ p) :
    events.countP T.counts ≤ T.reserve s.wire + (2 * q + (r.retries + 1) * r.tries *
      (s.options.maxHandoffHops + 1) * (p + (s.options.maxHandoffHops * (T.dialing + 2 * c) +
        (s.subscriptions.size + 2) * q))) := by
  obtain ⟨events', hhistory', hcount⟩ := (call_spent hc hq hp).events
  obtain rfl : events' = events := List.append_cancel_right (hhistory'.symm.trans hhistory)
  rw [Nat.mul_assoc, Nat.mul_assoc]
  omega

section
variable {r : CallRequest} {s : Session W} {events : List WireEvent}
  (hhistory : (exec (call r) s).2.history = events ++ s.history)
include hhistory

theorem length_published_le : (published events).length ≤
    (r.retries + 1) * r.tries * (s.options.maxHandoffHops + 1) := by
  have hcounts : (published events).length =
      events.countP (Tariff.ofSent W fun p => p.publication?.isSome).counts := by
    rw [published, List.length_filterMap_eq_countP]
    refine List.countP_congr fun e _ => ?_
    cases e with
    | sent n a p => cases p <;> simp [Tariff.ofSent, WireEvent.published?, Payload.publication?]
    | _ => simp [Tariff.ofSent, WireEvent.published?]
  rw [hcounts]
  have h := countP_call_le (T := .ofSent W fun p => p.publication?.isSome) (c := 0) (q := 0)
    (p := 1) hhistory (fun _ => Nat.le_refl 0) (fun _ _ => Nat.le_refl 0) fun _ _ => Nat.le_refl 1
  simpa [Tariff.ofSent] using h

/-- Nothing is published but the call. To publish anything else would cost something, and the call
costs nothing by that tariff. -/
theorem published_call {p : Publication} (hp : p ∈ published events) :
    ∃ t ∈ r.topics, p = ⟨t, r.pubFence, (callMessage r s.id).encode⟩ := by
  classical
  let stray (p : Payload) : Bool := decide (∃ q, p = .publish q ∧
    ∀ t ∈ r.topics, q ≠ ⟨t, r.pubFence, (callMessage r s.id).encode⟩)
  have hcall (t : Topic) (ht : t ∈ r.topics) :
      (stray (.publish ⟨t, r.pubFence, (callMessage r s.id).encode⟩)).toNat ≤ 0 := by
    have hfalse : stray (.publish ⟨t, r.pubFence, (callMessage r s.id).encode⟩) = false := by
      refine decide_eq_false ?_
      rintro ⟨q, hq, hne⟩
      cases hq
      exact hne t ht rfl
    rw [hfalse]
    exact Nat.le_refl 0
  have hnone : events.countP (Tariff.ofSent W stray).counts = 0 := by
    have h := countP_call_le (T := .ofSent W stray) (c := 0) (q := 0) (p := 0) hhistory
      (fun _ => by simp [Tariff.ofSent, stray]) (fun _ _ => by simp [Tariff.ofSent, stray]) hcall
    simpa [Tariff.ofSent] using h
  obtain ⟨e, he, hpublished⟩ := List.mem_filterMap.1 hp
  have hcounts := List.countP_eq_zero.1 hnone e he
  cases e with
  | sent n a payload =>
    cases payload with
    | publish q =>
      cases hpublished
      refine Classical.byContradiction fun hstray => hcounts (decide_eq_true ?_)
      exact ⟨p, rfl, fun t ht hpt => hstray ⟨t, ht, hpt⟩⟩
    | _ => cases hpublished
  | _ => cases hpublished

theorem length_dials_le : (dials events).length ≤
    (r.retries + 1) * r.tries * (s.options.maxHandoffHops + 1) * s.options.maxHandoffHops := by
  rw [dials, List.length_filterMap_eq_countP]
  have h := countP_call_le (T := .ofDialed W) (c := 0) (q := 0) (p := 0) hhistory
    (fun _ => Nat.le_refl 0) (fun _ _ => Nat.le_refl 0) fun _ _ => Nat.le_refl 0
  simpa [Tariff.ofDialed] using h

theorem countP_sent_le : events.countP WireEvent.isSent ≤
    2 + (r.retries + 1) * r.tries * (s.options.maxHandoffHops + 1) *
      (1 + (s.options.maxHandoffHops * 2 + (s.subscriptions.size + 2))) := by
  have hcounts : events.countP WireEvent.isSent =
      events.countP (Tariff.ofSent W fun _ => true).counts := by
    refine List.countP_congr fun e _ => ?_
    cases e <;> simp [Tariff.ofSent, WireEvent.isSent]
  rw [hcounts]
  have h := countP_call_le (T := .ofSent W fun _ => true) (c := 1) (q := 1) (p := 1) hhistory
    (fun _ => Nat.le_refl 1) (fun _ _ => Nat.le_refl 1) fun _ _ => Nat.le_refl 1
  simpa [Tariff.ofSent] using h

theorem countP_received_le {k : Nat} (hk : W.Releases k) :
    events.countP WireEvent.isReceived ≤ W.pending s.wire + k *
      (2 + (r.retries + 1) * r.tries * (s.options.maxHandoffHops + 1) *
        (1 + (s.options.maxHandoffHops * 2 + (s.subscriptions.size + 2)))) := by
  have h := countP_call_le (T := .ofReceived hk) (c := k) (q := k) (p := k) hhistory
    (fun _ => Nat.le_refl k) (fun _ _ => Nat.le_refl k) fun _ _ => Nat.le_refl k
  refine Nat.le_trans h (Nat.le_of_eq ?_)
  simp only [Tariff.ofReceived]
  ring

end

/-- A call ends, whatever comes of it, and is sound and bounded. On every wire, in every state and
for every request: a message that is returned is a result of the call; the publications that are
sent are all one, with the request's content and fence, on the call topic of the function or, if the
request wants that, on the topic of the cloud; and their number is bounded. So are the brokers
dialed and all payloads sent; and if the wire releases no more than `k` payloads upon each that it
is sent, then so are those received. -/
theorem call_bounded (r : CallRequest) (s : Session W) :
    let hops := s.options.maxHandoffHops
    let publications :=
      (r.retries + 1) * (max 1 r.ackAttempts + if r.cloudRetry then 1 else 0) * (hops + 1)
    let sends := 2 + publications * (1 + (hops * 2 + (s.subscriptions.size + 2)))
    ∃ result s' events, exec (call r) s = (result, s') ∧ s'.history = events ++ s.history ∧
      (∀ m, result = .ok (some m) → m.action = .result ∧ m.request = r.request) ∧
      (published events).length ≤ publications ∧
      (∀ p ∈ published events, p.content = (callMessage r s.id).encode ∧
        p.geofence = r.pubFence ∧ (p.topic = functionTopic r.function .call ∨
          r.cloudRetry ∧ p.topic = functionTopic r.function .nack)) ∧
      (dials events).length ≤ publications * hops ∧
      events.countP WireEvent.isSent ≤ sends ∧
      ∀ k, W.Releases k → events.countP WireEvent.isReceived ≤ W.pending s.wire + k * sends := by
  intro hops publications sends
  obtain ⟨events, hhistory, -⟩ := (call_spent (T := .ofDialed W) (c := 0) (q := 0) (p := 0) (r := r)
    (s := s) (fun _ => Nat.le_refl 0) (fun _ _ => Nat.le_refl 0) fun _ _ => Nat.le_refl 0).events
  refine ⟨(exec (call r) s).1, _, events, rfl, hhistory, fun m hm => ?_,
    length_published_le hhistory, fun p hp => ?_, length_dials_le hhistory,
    countP_sent_le hhistory, fun k hk => countP_received_le hhistory hk⟩
  · exact (ends_call_answer s r).ok (Prod.ext hm rfl) m rfl
  · obtain ⟨t, ht, rfl⟩ := published_call hhistory hp
    refine ⟨rfl, rfl, ?_⟩
    rcases List.mem_cons.1 ht with rfl | ht
    · exact .inl rfl
    · split at ht
      · next hcloud => exact .inr ⟨hcloud, List.mem_singleton.1 ht⟩
      · exact absurd ht List.not_mem_nil

end Session

end Geocast
