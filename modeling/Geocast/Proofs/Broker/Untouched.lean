import Geocast.Proofs.Broker.Acknowledgement

/-! # What a payload leaves alone

All clients of a broker share its index and its counter of subscriptions. Still a payload gets at
what belongs to its sender only: the record of anybody else and the entries of that record in the
index stay as they are (`Coherent.spares`), and so they do while any number of payloads are
processed that others send (`Coherent.spares_after`). What other brokers send, and replies, change
nothing at all, whichever client they name. -/

namespace Geocast

/-- What does not ask a broker to change anything: all that other brokers send, and replies. -/
def Payload.IsInert : Payload → Prop
  | forwardPublish .. | forwardSubscribe .. | forwardUnsubscribe .. | forwardDisconnect ..
  | forwardPingReq .. | connAck _ | pingResp _ | subAck _ | unsubAck _ | pubAck _ => True
  | _ => False

namespace Broker

variable {b b' b'' : Broker} {c y : String} {p : Payload}

/-- From `b` to `b'` everything stays that belongs to the client `y`: its record, or that it has
none, and the entries of the index under its ids. -/
structure Spares (b : Broker) (y : String) (b' : Broker) : Prop where
  record : b'.record? y = b.record? y
  entries : ∀ i t, i.clientId = y → b'.index.get? i t = b.index.get? i t

namespace Spares

theorem refl (b : Broker) (y : String) : b.Spares y b := ⟨rfl, fun _ _ _ => rfl⟩

theorem trans (h : b.Spares y b') (h' : b'.Spares y b'') : b.Spares y b'' :=
  ⟨h'.record.trans h.record, fun i t hi => (h'.entries i t hi).trans (h.entries i t hi)⟩

end Spares

/-! ## The other clients -/

/-- A change of the record of one client spares the others. -/
theorem Becomes.spares {new : Option ClientRecord} (h : b.Becomes c new b') (hne : c ≠ y) :
    b.Spares y b' := by
  refine ⟨(h.records y).trans (if_neg hne), fun i t hi => Option.ext fun g => ?_⟩
  rw [h.entries, if_neg (hi ▸ hne)]

theorem Coherent.spares (H : Coherent b) (p : Payload) (hne : c ≠ y) :
    b.Spares y (b.handle c p).1 :=
  (H.becomes c p rfl).spares hne

/-- A client that sends nothing keeps what it has. -/
theorem Coherent.spares_after (H : Coherent b) {frames : List Frame}
    (hother : ∀ f ∈ frames, f.sender ≠ y) : b.Spares y (b.after frames) := by
  induction frames generalizing b with
  | nil => exact .refl b y
  | cons f fs ih =>
    obtain ⟨hf, hfs⟩ := List.forall_mem_cons.1 hother
    have hnext : Coherent (b.handle f.sender f.payload).1 := H.change (b.handle_change ..)
    exact (H.spares f.payload hf).trans (ih hnext hfs)

/-! ## Payloads without effect -/

theorem handle_inert (b : Broker) (c : String) (hp : p.IsInert) : (b.handle c p).1 = b := by
  cases p with
  | connect | disconnect | pingReq | subscribe | unsubscribe | publish => exact hp.elim
  | _ => rfl

/-- A broker that acknowledges a publication keeps the client: it forgets a client only when it
redirects it, and then there is no acknowledgement. -/
theorem publish_acknowledged {q : Publication} {reason : ReasonCode}
    (h : (c, .pubAck reason) ∈ (b.handle c (.publish q)).2.outgoing) :
    (b.handle c (.publish q)).1 = b := by
  rw [handle, publish] at h ⊢
  split
  · rfl
  · next hnone =>
    simp only [hnone, publishUnlocated] at h ⊢
    split
    · rfl
    · next hresp =>
      rw [if_neg hresp] at h
      split at h <;> cases (Prod.mk.inj (List.mem_singleton.1 h)).2

/-- A payload touches only what belongs to its sender. In every state that a broker can get into,
whatever a client sends, the record of every other client and all entries of the index under an id
of another client stay as they are; so a client that sends nothing keeps both over any number of
payloads. A publication that is acknowledged, all that brokers send each other, whatever client it
names, and replies leave the broker altogether as it is, its counter of subscriptions included. -/
theorem others_untouched {b : Broker} (hb : b.Reachable) :
    (∀ c p y, c ≠ y → b.Spares y (b.handle c p).1) ∧
    (∀ y frames, (∀ f ∈ frames, f.sender ≠ y) → b.Spares y (b.after frames)) ∧
    (∀ c q reason, (c, .pubAck reason) ∈ (b.handle c (.publish q)).2.outgoing →
      (b.handle c (.publish q)).1 = b) ∧
    ∀ c p, p.IsInert → (b.handle c p).1 = b := by
  have H : Coherent b := hb.coherent
  exact ⟨fun c p y hne => H.spares p hne, fun y frames hother => H.spares_after hother,
    fun c q reason h => publish_acknowledged h, fun c p hp => b.handle_inert c hp⟩

/-- The broker of the city after a car and a van subscribed to the same topic, and the van again. -/
def twoWatch : Broker :=
  ofCity.after
    [⟨"car", .connect (some ⟨52.5, 13.4⟩)⟩, ⟨"van", .connect (some ⟨52.25, 13.75⟩)⟩,
      ⟨"car", .subscribe ⟨"jams"⟩ .world⟩, ⟨"van", .subscribe ⟨"jams"⟩ .world⟩,
      ⟨"van", .subscribe ⟨"jams"⟩ (.rectangle ⟨52, 13⟩ ⟨53, 14⟩)⟩]

/-- When the van leaves the city and is forgotten, the car keeps its record and its entry. When
another broker reports that the car is gone, and when the car publishes, nothing changes. -/
theorem twoWatch_spared :
    (∃ record, twoWatch.record? "car" = some record ∧
      (twoWatch.handle "van" (.pingReq (some ⟨40, -30⟩))).1.record? "car" = some record) ∧
    ((twoWatch.handle "van" (.pingReq (some ⟨40, -30⟩))).1.record? "van").isNone ∧
    (∃ g, twoWatch.index.get? ⟨"car", 1⟩ ⟨"jams"⟩ = some g ∧
      (twoWatch.handle "van" (.pingReq (some ⟨40, -30⟩))).1.index.get? ⟨"car", 1⟩ ⟨"jams"⟩ =
        some g) ∧
    (twoWatch.handle "cloud" (.forwardDisconnect "car" .normalDisconnection)).1 = twoWatch ∧
    (twoWatch.handle "car" (.publish ⟨⟨"jams"⟩, .world, "A100"⟩)).1 = twoWatch := by
  obtain ⟨hother, -, hacknowledged, hinert⟩ := others_untouched (b := twoWatch) ⟨_, _, _, rfl⟩
  have hspared := hother "van" (.pingReq (some ⟨40, -30⟩)) "car" (by decide)
  obtain ⟨record, hrecord⟩ := Option.isSome_iff_exists.1
    (show (twoWatch.record? "car").isSome by decide +kernel)
  obtain ⟨g, hg⟩ := Option.isSome_iff_exists.1
    (show (twoWatch.index.get? ⟨"car", 1⟩ ⟨"jams"⟩).isSome by decide +kernel)
  obtain ⟨l, hl⟩ := Option.isSome_iff_exists.1
    (show (twoWatch.roster.location? "car").isSome by decide +kernel)
  refine ⟨⟨record, hrecord, hspared.record.trans hrecord⟩, by decide +kernel,
    ⟨g, hg, (hspared.entries _ _ rfl).trans hg⟩, hinert _ _ trivial, ?_⟩
  obtain ⟨reason, hreason⟩ := twoWatch.publishFrom_outgoing "car" l ⟨⟨"jams"⟩, .world, "A100"⟩
  refine hacknowledged "car" _ reason ?_
  rw [handle_publish hl, hreason]
  exact List.mem_append_right _ (List.mem_singleton.2 rfl)

end Broker

end Geocast
