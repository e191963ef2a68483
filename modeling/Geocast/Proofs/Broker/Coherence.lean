import Geocast.Proofs.Broker.Run
import Mathlib.Tactic

/-! # The index agrees with the roster

The roster files subscriptions by client and the index by topic. `Coherent` says that they hold the
same subscriptions, and every run of a broker keeps it (`coherent_after`): whatever removes or
replaces a subscription in the one does so in the other. The ids of subscriptions are numbered
through (`mintedIn_seq`), so no id is ever given twice. -/

namespace Geocast

/-- The record of the client `c` holds the subscription `s`. -/
def Roster.Holds (r : Roster) (c : String) (s : Subscription) : Prop :=
  ∃ record, r.clients.get? c = some record ∧ ∃ t, record.subscriptions.get? t = some s

theorem Roster.holds_iff {r : Roster} {c : String} {s : Subscription} :
    r.Holds c s ↔ ∃ t, r.subscription? c t = some s := by
  simp only [Holds, subscription?, Option.bind_eq_some_iff]
  constructor
  · rintro ⟨record, hr, t, ht⟩
    exact ⟨t, record, hr, ht⟩
  · rintro ⟨t, record, hr, ht⟩
    exact ⟨record, hr, t, ht⟩

/-- The index `x` holds the subscriptions that `held` gives by client and topic, each under the
client in its id and under its own topic. -/
structure Agree (held : String → Topic → Option Subscription) (x : TopicIndex) : Prop where
  filed : ∀ {i t g}, x.get? i t = some g ↔ ∃ c, held c t = some ⟨i, t, g⟩
  owner : ∀ {c t s}, held c t = some s → s.id.clientId = c
  topic : ∀ {c t s}, held c t = some s → s.topic = t
  pruned : x.Pruned

namespace Agree

variable {held : String → Topic → Option Subscription} {x : TopicIndex} {c : String} {t : Topic}

theorem empty : Agree (fun _ _ => none) .empty where
  filed := by simp
  owner h := nomatch h
  topic h := nomatch h
  pruned := .empty

/-- A client has no subscription on a topic any more. -/
theorem erase (H : Agree held x) {s : Subscription} (hs : held c t = some s) :
    Agree (fun c' t' => if c = c' ∧ t = t' then none else held c' t') (x.erase s.id t) where
  filed {i t' g} := by
    simp only [TopicIndex.get?_erase, Option.ite_none_left_eq_some, H.filed]
    constructor
    · rintro ⟨hi, c', hs'⟩
      refine ⟨c', fun ⟨hc, ht⟩ => hi ⟨?_, ht⟩, hs'⟩
      subst hc ht
      rw [Option.some.inj (hs.symm.trans hs')]
    · rintro ⟨c', hc, hs'⟩
      refine ⟨fun ⟨hi, ht⟩ => hc ⟨?_, ht⟩, c', hs'⟩
      rw [← H.owner hs, hi]
      exact H.owner hs'
  owner h := H.owner (Option.ite_none_left_eq_some.1 h).2
  topic h := H.topic (Option.ite_none_left_eq_some.1 h).2
  pruned := H.pruned.erase s.id t

/-- A client gets a subscription on a topic where it had none. -/
theorem insert (H : Agree held x) (hnone : held c t = none) {i : SubscriptionId}
    (hi : i.clientId = c) (g : Geofence) :
    Agree (fun c' t' => if c = c' ∧ t = t' then some ⟨i, t, g⟩ else held c' t')
      (x.insert i t g) where
  filed {i' t' g'} := by
    rw [TopicIndex.get?_insert]
    split
    · next h =>
      obtain ⟨rfl, rfl⟩ := h
      constructor
      · rintro ⟨⟩
        exact ⟨c, if_pos ⟨rfl, rfl⟩⟩
      · rintro ⟨c', hs⟩
        split at hs
        · simpa using hs
        · next hc => exact absurd ⟨hi.symm.trans (H.owner hs), rfl⟩ hc
    · next h =>
      rw [H.filed]
      refine exists_congr fun c' => ?_
      by_cases hc : c = c' ∧ t = t'
      · obtain ⟨rfl, rfl⟩ := hc
        simpa [hnone] using fun hi' => absurd ⟨hi', rfl⟩ h
      · rw [if_neg hc]
  owner h := by
    split at h
    · next hc => cases h; exact hi.trans hc.1
    · exact H.owner h
  topic h := by
    split at h
    · next hc => cases h; exact hc.2
    · exact H.topic h
  pruned := H.pruned.insert i t g

end Agree

namespace Broker

variable {b b' : Broker} {c : String} {p : Payload}

/-- The index and the roster hold the same subscriptions. -/
def Coherent (b : Broker) : Prop := Agree b.roster.subscription? b.index

namespace Coherent

theorem evict (H : Coherent b) (c : String) : Coherent (b.evict c) where
  filed {i t g} := by
    simp only [evict_get?, evict_subscription?, Option.ite_none_left_eq_some, H.filed]
    constructor
    · rintro ⟨⟨c', hs⟩, hgone⟩
      -- the evicted client does not hold it, or it would be gone
      exact ⟨c', fun hc => hgone t _ (hc ▸ hs) ⟨rfl, rfl⟩, hs⟩
    · rintro ⟨c', hc, hs⟩
      refine ⟨⟨c', hs⟩, fun k s hk ⟨hi, _⟩ => hc ?_⟩
      rw [← H.owner hk, hi]
      exact H.owner hs
  owner h := by
    rw [evict_subscription?] at h
    exact H.owner (Option.ite_none_left_eq_some.1 h).2
  topic h := by
    rw [evict_subscription?] at h
    exact H.topic (Option.ite_none_left_eq_some.1 h).2
  pruned := b.evict_pruned c H.pruned

theorem subscribe (H : Coherent b) {t : Topic} {g : Geofence} {s : Subscription} {r : Roster}
    (h : b.roster.subscribe? c t g = some (s, r)) : Coherent (b.subscribe c t g).1 := by
  obtain ⟨-, rfl, -⟩ := Roster.subscribe?_eq_some.1 h
  have hr := funext fun c' => funext (Roster.subscription?_of_subscribe? h c')
  simp only [Coherent, Broker.subscribe, h, hr]
  cases ho : b.roster.subscription? c t with
  | none => exact Agree.insert H ho rfl g
  | some old =>
    -- the subscription that is replaced goes first
    convert (Agree.erase H ho).insert (if_pos ⟨rfl, rfl⟩) (i := ⟨c, b.roster.lastSeq + 1⟩) rfl g
      using 3
    split <;> rfl

theorem change (H : Coherent b) (h : Change b c p b') : Coherent b' := by
  cases h with
  | idle => exact H
  | evicted => exact H.evict c
  | added _ h =>
    rw [Coherent, funext fun c' => funext (Roster.subscription?_of_add? h c')]
    exact H
  | relocated _ h =>
    rw [Coherent, funext fun c' => funext (Roster.subscription?_of_relocate? h c')]
    exact H
  | subscribed h => exact H.subscribe h
  | unsubscribed h =>
    rw [Coherent, funext fun c' => funext (Roster.subscription?_of_unsubscribe? h c')]
    exact Agree.erase H (Roster.unsubscribe?_eq_some.1 h).1

end Coherent

theorem coherent_start (atlas : Atlas) (policy : ForwardingPolicy) :
    Coherent (start atlas policy) := Agree.empty

/-- The index and the roster agree after every run of a broker that begins without clients. -/
theorem coherent_after (atlas : Atlas) (policy : ForwardingPolicy) (frames : List Frame) :
    Coherent ((start atlas policy).after frames) :=
  after_keeps (fun h H => H.change h) frames (coherent_start atlas policy)

theorem Reachable.coherent (H : b.Reachable) : Coherent b := by
  obtain ⟨atlas, policy, frames, rfl⟩ := H
  exact coherent_after atlas policy frames

/-! ## The ids of subscriptions -/

/-- The id that a payload from a client makes the broker give to a subscription. -/
def minted? (b : Broker) (c : String) : Payload → Option SubscriptionId
  | .subscribe t g => (b.roster.subscribe? c t g).map (·.1.id)
  | _ => none

/-- The ids given while a sequence of payloads is processed, in order. -/
def mintedIn : Broker → List Frame → List SubscriptionId
  | _, [] => []
  | b, f :: fs =>
    (b.minted? f.sender f.payload).toList ++ mintedIn (b.handle f.sender f.payload).1 fs

theorem Change.no_new (H : Change b c p b') (hp : ∀ t g, p ≠ .subscribe t g) :
    b'.roster.lastSeq = b.roster.lastSeq ∧ ∀ {c' t s}, b'.roster.subscription? c' t = some s →
      b.roster.subscription? c' t = some s := by
  cases H with
  | idle => exact ⟨rfl, fun h => h⟩
  | evicted =>
    refine ⟨b.evict_lastSeq c, fun h => ?_⟩
    rw [evict_subscription?] at h
    exact (Option.ite_none_left_eq_some.1 h).2
  | added _ h =>
    refine ⟨by rw [(Roster.add?_eq_some.1 h).2], fun hs => ?_⟩
    rwa [← Roster.subscription?_of_add? h]
  | relocated _ h =>
    refine ⟨by rw [(Roster.relocate?_eq_some.1 h).2], fun hs => ?_⟩
    rwa [← Roster.subscription?_of_relocate? h]
  | subscribed => exact absurd rfl (hp _ _)
  | unsubscribed h =>
    refine ⟨by rw [(Roster.unsubscribe?_eq_some.1 h).2], fun hs => ?_⟩
    rw [Roster.subscription?_of_unsubscribe? h] at hs
    exact (Option.ite_none_left_eq_some.1 hs).2

/-- A payload gives at most one id, with the next number, and a subscription that is new after it
carries that id. -/
theorem handle_minted? (b : Broker) (c : String) (p : Payload) :
    (b.handle c p).1.roster.lastSeq = b.roster.lastSeq + (b.minted? c p).toList.length ∧
    (∀ i ∈ b.minted? c p, i.seq = b.roster.lastSeq + 1) ∧
    ∀ {c' t s}, (b.handle c p).1.roster.subscription? c' t = some s →
      b.roster.subscription? c' t = some s ∨ s.id ∈ b.minted? c p := by
  by_cases hp : ∃ t g, p = .subscribe t g
  · obtain ⟨t, g, rfl⟩ := hp
    cases h : b.roster.subscribe? c t g with
    | none =>
      simp only [handle, subscribe, minted?, h]
      exact ⟨rfl, by simp, .inl⟩
    | some e =>
      obtain ⟨s, r⟩ := e
      simp only [handle, subscribe, minted?, h, Option.map_some]
      obtain ⟨-, hs, hr⟩ := Roster.subscribe?_eq_some.1 h
      refine ⟨by rw [hr]; rfl, by simp [hs], fun {c' t' s'} hs' => ?_⟩
      rw [Roster.subscription?_of_subscribe? h] at hs'
      split at hs'
      · cases hs'; exact .inr rfl
      · exact .inl hs'
  · have hnone : b.minted? c p = none := by
      cases p with
      | subscribe t g => exact absurd ⟨t, g, rfl⟩ hp
      | _ => rfl
    obtain ⟨hseq, hheld⟩ := (b.handle_change c p).no_new fun t g h => hp ⟨t, g, h⟩
    rw [hnone]
    refine ⟨hseq, fun i hi => ?_, fun h => .inl (hheld h)⟩
    cases hi

theorem lastSeq_after (fs : List Frame) (b : Broker) :
    (b.after fs).roster.lastSeq = b.roster.lastSeq + (b.mintedIn fs).length := by
  induction fs generalizing b with
  | nil => rfl
  | cons f fs ih =>
    rw [after_cons, ih, (b.handle_minted? f.sender f.payload).1, mintedIn, List.length_append]
    omega

/-- The ids given during a run are numbered through. -/
theorem mintedIn_seq (fs : List Frame) (b : Broker) :
    (b.mintedIn fs).map (·.seq) = List.range' (b.roster.lastSeq + 1) (b.mintedIn fs).length := by
  induction fs generalizing b with
  | nil => rfl
  | cons f fs ih =>
    obtain ⟨hlast, hseq, -⟩ := b.handle_minted? f.sender f.payload
    rw [mintedIn, List.map_append, ih, hlast, List.length_append]
    cases hm : b.minted? f.sender f.payload with
    | none => simp
    | some i =>
      simp [hseq i hm, Nat.add_comm 1, List.range'_succ]

theorem mintedIn_nodup (fs : List Frame) (b : Broker) : (b.mintedIn fs).Nodup := by
  refine List.Nodup.of_map (·.seq) ?_
  rw [mintedIn_seq]
  exact List.nodup_range'

/-- A subscription held after a run was held before or got its id during the run. -/
theorem held_after (fs : List Frame) {b : Broker} {c : String} {t : Topic} {s : Subscription}
    (h : (b.after fs).roster.subscription? c t = some s) :
    b.roster.subscription? c t = some s ∨ s.id ∈ b.mintedIn fs := by
  induction fs generalizing b with
  | nil => exact .inl h
  | cons f fs ih =>
    rw [mintedIn, List.mem_append, Option.mem_toList]
    rcases ih h with h | h
    · exact ((b.handle_minted? f.sender f.payload).2.2 h).imp_right .inl
    · exact .inr (.inr h)

/-! ## The whole run -/

/-- After every run of a broker that begins without clients: the triples of id, topic and geofence
in the index are those of the subscriptions that the clients' records hold; a record holds only
subscriptions with the client's own id, each under its topic; every id held was given during the
run, none was given twice, and the counter stands at their number; no topic is without entries. -/
theorem index_agrees_with_records (atlas : Atlas) (policy : ForwardingPolicy)
    (frames : List Frame) :
    let b := (start atlas policy).after frames
    let minted := (start atlas policy).mintedIn frames
    (∀ i t g, b.index.get? i t = some g ↔ ∃ c, b.roster.Holds c ⟨i, t, g⟩) ∧
    (∀ c s, b.roster.Holds c s → s.id.clientId = c ∧ b.roster.subscription? c s.topic = some s ∧
      s.id ∈ minted) ∧
    minted.Nodup ∧ b.roster.lastSeq = minted.length ∧
    ∀ t entry, b.index.topics.get? t = some entry → entry.isEmpty = false := by
  intro b minted
  have H : Coherent b := coherent_after atlas policy frames
  have hown {c t s} (h : b.roster.subscription? c t = some s) :
      b.roster.subscription? c s.topic = some s := by rwa [H.topic h]
  refine ⟨fun i t g => ?_, fun c s hs => ?_, mintedIn_nodup .., ?_, H.pruned⟩
  · rw [H.filed]
    refine exists_congr fun c => ⟨fun h => Roster.holds_iff.2 ⟨t, h⟩, fun h => ?_⟩
    obtain ⟨_, h⟩ := Roster.holds_iff.1 h
    exact hown h
  · obtain ⟨t, h⟩ := Roster.holds_iff.1 hs
    exact ⟨H.owner h, hown h, (held_after frames h).resolve_left nofun⟩
  · exact (lastSeq_after frames _).trans (Nat.zero_add _)

end Broker

end Geocast
