import Geocast.Proofs.Ascending
import Geocast.Proofs.Broker.Coherence

/-! # Matching through the index

A broker finds the subscribers of a publication through the index of topics. `Broker.Matches` is
what matching means, said with the records of the clients only: the subscription contains the
publisher and the publication contains the subscriber. While the index agrees with the roster the
two come to the same (`mem_subscribers`), and how the entries of the index happen to be ordered
makes no difference (`subscribers_congr`). -/

namespace Geocast

theorem TopicIndex.mem_matching {x : TopicIndex} {t : Topic} {p : Location} {i : SubscriptionId} :
    i ∈ x.matching t p ↔ ∃ g, x.get? i t = some g ∧ g.contains p := by
  simp only [matching, List.mem_map, List.mem_filter, Prod.exists, exists_and_right,
    exists_eq_right, Table.mem_entries_iff, get?]

namespace Broker

variable {b b' : Broker} {l : Location} {p : Publication} {c : String}

/-- A publication from a publisher at `l` is meant for the client `c`: its record has a subscription
on the topic that contains the publisher, and its location is known and in the geofence. -/
def Matches (b : Broker) (l : Location) (p : Publication) (c : String) : Prop :=
  ∃ record, b.roster.clients.get? c = some record ∧
    (∃ s, record.subscriptions.get? p.topic = some s ∧ s.geofence.contains l) ∧
    ∃ l', record.location = some l' ∧ p.geofence.contains l'

theorem mem_subscribers_iff_get? : c ∈ b.subscribers l p ↔
    (∃ i g, b.index.get? i p.topic = some g ∧ g.contains l ∧ i.clientId = c) ∧
    ∃ l', b.roster.location? c = some l' ∧ p.geofence.contains l' := by
  simp only [subscribers, mem_ascending, List.mem_filter, List.mem_map, TopicIndex.mem_matching,
    Option.any_eq_true]
  refine and_congr_left fun _ => exists_congr fun i => ?_
  exact ⟨fun ⟨⟨g, h, hg⟩, hi⟩ => ⟨g, h, hg, hi⟩, fun ⟨g, h, hg, hi⟩ => ⟨⟨g, h, hg⟩, hi⟩⟩

/-- The clients found through the index are those that the records tell. -/
theorem mem_subscribers (H : Coherent b) : c ∈ b.subscribers l p ↔ b.Matches l p c := by
  rw [mem_subscribers_iff_get?]
  constructor
  · rintro ⟨⟨i, g, hg, hl, rfl⟩, l', hl', hp⟩
    obtain ⟨c, hs⟩ := H.filed.1 hg
    obtain rfl : i.clientId = c := H.owner hs
    simp only [Roster.subscription?, Roster.location?, Option.bind_eq_some_iff] at hs hl'
    obtain ⟨record, hr, hs⟩ := hs
    obtain ⟨_, hr', hl'⟩ := hl'
    obtain rfl := Option.some.inj (hr.symm.trans hr')
    exact ⟨record, hr, ⟨_, hs, hl⟩, l', hl', hp⟩
  · rintro ⟨record, hr, ⟨s, hs, hl⟩, l', hl', hp⟩
    have hsub : b.roster.subscription? c p.topic = some s := by
      rw [Roster.subscription?, hr]; exact hs
    have hloc : b.roster.location? c = some l' := by
      rw [Roster.location?, hr]; exact hl'
    have hfiled : b.index.get? s.id p.topic = some s.geofence :=
      H.filed.2 ⟨c, by rw [hsub, ← H.topic hsub]⟩
    exact ⟨⟨s.id, s.geofence, hfiled, hl, H.owner hsub⟩, l', hloc, hp⟩

/-- Only what the index and the roster hold decides who gets a publication, not the order of their
entries. -/
theorem subscribers_congr (hindex : ∀ i t, b'.index.get? i t = b.index.get? i t)
    (hlocation : ∀ c, b'.roster.location? c = b.roster.location? c) (l : Location)
    (p : Publication) : b'.subscribers l p = b.subscribers l p := by
  have hmem (c : String) : c ∈ b'.subscribers l p ↔ c ∈ b.subscribers l p := by
    simp only [mem_subscribers_iff_get?, hindex, hlocation]
  simp only [subscribers, mem_ascending] at hmem ⊢
  exact ascending_congr hmem

theorem pairwise_subscribers (b : Broker) (l : Location) (p : Publication) :
    (b.subscribers l p).Pairwise fun c c' => bytes c < bytes c' :=
  (pairwise_ascending _).imp bytes_lt_bytes

theorem matchResult_deliveries (b : Broker) (l : Location) (p : Publication) :
    (matchResult (b.deliveries l p) = .success ↔ ∃ c, c ∈ b.subscribers l p) ∧
    (matchResult (b.deliveries l p) = .noMatchingSubscribers ↔ ¬ ∃ c, c ∈ b.subscribers l p) := by
  cases h : b.subscribers l p with
  | nil => simp [matchResult, deliveries, h]
  | cons c cs => simp [matchResult, deliveries, h]

/-- What a broker delivers locally, after every run that began without clients: the publication
once to each client that it is meant for by the records, in ascending order of the bytes of the
client ids, and nothing else. The outcome is success exactly if there is such a client. Entries in
another order, in the index or in the roster, lead to the same deliveries. -/
theorem deliveries_follow_records (atlas : Atlas) (policy : ForwardingPolicy)
    (frames : List Frame) (l : Location) (p : Publication) :
    let b := (start atlas policy).after frames
    (∃ clients : List String,
      b.deliveries l p = ⟨clients.map fun c => (c, .publish p), []⟩ ∧
      (clients.Pairwise fun c c' => bytes c < bytes c') ∧
      ∀ c, c ∈ clients ↔ b.Matches l p c) ∧
    (matchResult (b.deliveries l p) = .success ↔ ∃ c, b.Matches l p c) ∧
    (matchResult (b.deliveries l p) = .noMatchingSubscribers ↔ ¬ ∃ c, b.Matches l p c) ∧
    ∀ b' : Broker, (∀ i t, b'.index.get? i t = b.index.get? i t) →
      (∀ c, b'.roster.location? c = b.roster.location? c) →
      b'.deliveries l p = b.deliveries l p := by
  intro b
  have H : Coherent b := coherent_after atlas policy frames
  have hmatch := b.matchResult_deliveries l p
  simp only [mem_subscribers H] at hmatch
  refine ⟨⟨b.subscribers l p, rfl, b.pairwise_subscribers l p, fun c => mem_subscribers H⟩,
    hmatch.1, hmatch.2, fun b' hindex hlocation => ?_⟩
  rw [deliveries, deliveries, subscribers_congr hindex hlocation]

end Broker

end Geocast
