import Geocast.Proofs.Broker.Interleaving
import Geocast.Proofs.Broker.Reply

/-! # How often a peer is handed a publication

A broker forwards a publication to the areas of its peers that the geofence reaches, area by area.
So a peer is handed it as often as the list of areas has entries of this peer that the geofence
reaches (`length_forwardsTo`), and nothing keeps the list from having several. Where it has one
entry for each peer, no peer is handed a publication twice (`nodup_forwards_iff`). A client is
delivered one copy at most for each payload that its broker processes (`copies_le`), so copies
multiply by forwarding alone. -/

namespace Geocast

/-- The number of entries of the broker `i` that a geofence reaches. -/
def entriesWithin (areas : List BrokerArea) (i : String) (g : Geofence) : Nat :=
  areas.countP fun a => a.broker.id = i && a.area.intersects g

/-- What is forwarded to the broker `i`. -/
def Dispatch.forwardsTo (d : Dispatch) (i : String) : List Payload :=
  (d.forwards.filter fun m => m.1.id = i).map Prod.snd

/-- Nobody is forwarded anything twice exactly if each broker is forwarded one payload at most. -/
theorem Dispatch.nodup_forwards_iff {d : Dispatch} :
    (d.forwards.map (·.1.id)).Nodup ↔ ∀ i, (d.forwardsTo i).length ≤ 1 := by
  rw [List.nodup_iff_count_le_one]
  refine forall_congr' fun i => ?_
  rw [List.count, List.countP_map, List.countP_eq_length_filter, forwardsTo, List.length_map]
  rfl

namespace Atlas

theorem others_ofAreas {id : String} {areas : List BrokerArea} {a : Atlas}
    (h : ofAreas id areas = .ok a) : a.others = areas.filter fun o => o.broker.id ≠ id := by
  unfold ofAreas at h
  split at h
  · exact nomatch h
  · split at h
    · exact nomatch h
    · cases h
      rfl

/-- Among the peers there are the entries of all brokers but the own one. -/
theorem entriesWithin_others {id : String} {areas : List BrokerArea} {a : Atlas}
    (h : ofAreas id areas = .ok a) (i : String) (g : Geofence) :
    entriesWithin a.others i g = if i = id then 0 else entriesWithin areas i g := by
  rw [others_ofAreas h, entriesWithin, List.countP_filter]
  split
  · next hi => exact List.countP_eq_zero.2 (by simp +contextual [hi])
  · next hi =>
    refine List.countP_congr fun o _ => ?_
    simp only [ne_eq, decide_not, Bool.and_eq_true, decide_eq_true_eq, Bool.not_eq_true',
      decide_eq_false_iff_not]
    exact ⟨fun ⟨ho, _⟩ => ho, fun ho => ⟨ho, fun hid => hi (ho.1.symm.trans hid)⟩⟩

end Atlas

namespace Broker

variable {b : Broker} {c : String} {p : Publication}

/-- Whether the broker hands a publication of the client `c` to the peers that it reaches: it knows
where the client is, and the policy does not keep the publication local. -/
def Spreads (b : Broker) (c : String) (p : Publication) : Prop :=
  ∃ l, b.roster.location? c = some l ∧
    b.policy ⟨c, p.topic, matchResult (b.delivered l p)⟩ = false

/-! ## What a peer is handed -/

theorem length_forwardsTo (h : b.Spreads c p) (i : String) :
    ((b.handle c (.publish p)).2.forwardsTo i).length
      = entriesWithin b.atlas.others i p.geofence := by
  obtain ⟨l, hl, hpolicy⟩ := h
  rw [handle_publish hl, Dispatch.forwardsTo, publishFrom_forwards, hpolicy, List.length_map,
    ← List.countP_eq_length_filter]
  simp only [Bool.false_eq_true, if_false, Atlas.peersWithin, List.map_map, List.countP_map,
    List.countP_filter]
  rfl

/-- What is not spread goes to one broker at most. -/
theorem length_forwards_of_not_spreads {q : Payload}
    (h : ∀ p, q = .publish p → ¬ b.Spreads c p) : (b.handle c q).2.forwards.length ≤ 1 := by
  cases hd : (b.handle c q).2.forwards with
  | nil => exact Nat.zero_le 1
  | cons m ms =>
    obtain ⟨p, rfl⟩ := publish_of_forwarded (hd ▸ List.mem_cons_self : m ∈ _)
    rw [← hd, handle, publish]
    split
    · next l hl =>
      have hpolicy : b.policy ⟨c, p.topic, matchResult (b.delivered l p)⟩ = true :=
        Bool.eq_true_of_not_eq_false fun hpolicy => h p rfl ⟨l, hl, hpolicy⟩
      rw [publishFrom_forwards, if_pos hpolicy]
      exact Nat.zero_le 1
    · unfold publishUnlocated
      dsimp only
      split
      · exact Nat.zero_le 1
      · split
        · exact Nat.le_refl 1
        · exact Nat.zero_le 1

theorem length_forwardsTo_ofAreas {id : String} {areas : List BrokerArea}
    (hatlas : Atlas.ofAreas id areas = .ok b.atlas) (h : b.Spreads c p) (i : String) :
    ((b.handle c (.publish p)).2.forwardsTo i).length =
      if i = id then 0 else entriesWithin areas i p.geofence := by
  rw [length_forwardsTo h, Atlas.entriesWithin_others hatlas]

theorem length_forwardsTo_le (d : Dispatch) (i : String) :
    (d.forwardsTo i).length ≤ d.forwards.length := by
  rw [Dispatch.forwardsTo, List.length_map]
  exact List.length_filter_le ..

/-- The brokers that a payload is forwarded to are distinct unless the geofence of a publication
reaches several entries of one of them. -/
theorem nodup_forwards_iff {id : String} {areas : List BrokerArea}
    (hatlas : Atlas.ofAreas id areas = .ok b.atlas) (c : String) (q : Payload) :
    ((b.handle c q).2.forwards.map (·.1.id)).Nodup ↔ ¬ ∃ p, q = .publish p ∧ b.Spreads c p ∧
      ∃ i, i ≠ id ∧ 1 < entriesWithin areas i p.geofence := by
  rw [Dispatch.nodup_forwards_iff]
  constructor
  · rintro hle ⟨p, rfl, hp, i, hi, hlt⟩
    have hone := hle i
    rw [length_forwardsTo_ofAreas hatlas hp, if_neg hi] at hone
    exact absurd hlt (Nat.not_lt.2 hone)
  · intro hnone i
    by_cases hspread : ∃ p, q = .publish p ∧ b.Spreads c p
    · obtain ⟨p, rfl, hp⟩ := hspread
      rw [length_forwardsTo_ofAreas hatlas hp]
      split
      · exact Nat.zero_le 1
      · next hi => exact Nat.not_lt.1 fun hlt => hnone ⟨p, rfl, hp, i, hi, hlt⟩
    · refine (length_forwardsTo_le _ i).trans (length_forwards_of_not_spreads fun p hq hp => ?_)
      exact hspread ⟨p, hq, hp⟩

/-- If the entries of the peers are distinct, then no peer has several entries that a geofence
reaches. -/
theorem entriesWithin_le_one {id : String} {areas : List BrokerArea}
    (hdistinct : ((areas.filter fun a => a.broker.id ≠ id).map (·.broker.id)).Nodup)
    {i : String} (hi : i ≠ id) (g : Geofence) : entriesWithin areas i g ≤ 1 := by
  have hone := List.nodup_iff_count_le_one.1 hdistinct i
  rw [List.count, List.countP_map, List.countP_filter] at hone
  refine (List.countP_mono_left fun a _ ha => ?_).trans hone
  simp only [Bool.and_eq_true, decide_eq_true_eq] at ha
  simp [ha.1, hi]

/-! ## What a client is delivered -/

/-- The copies of publications among payloads. -/
def copies (payloads : List Payload) : Nat := payloads.countP fun p => p.kind = .publish

theorem length_sentTo_le {sent : List (String × Payload)} (h : (sent.map Prod.fst).Nodup)
    (y : String) : (Dispatch.sentTo ⟨sent, []⟩ y).length ≤ 1 := by
  have hcount := List.nodup_iff_count_le_one.1 h y
  rw [List.count, List.countP_map, List.countP_eq_length_filter] at hcount
  rw [Dispatch.sentTo, List.length_map]
  exact hcount

/-- A payload brings a client one copy at most. -/
theorem copies_sentTo_le (b : Broker) (peer : String) (q : Payload) (y : String) :
    copies ((b.handle peer q).2.sentTo y) ≤ 1 := by
  by_cases hq : q.ackKind?.isSome
  · obtain ⟨r, ⟨sent, hout, hnodup, -⟩, hr⟩ := b.handle_replied peer hq
    have hkind : r.kind ≠ .publish := by
      rcases hr with hack | ⟨hkind, -⟩
      · cases q <;> simp_all [Payload.ackKind?] <;> rw [← hack] <;> decide
      · rw [hkind]
        decide
    have hlast : copies ((Dispatch.sentTo ⟨[(peer, r)], []⟩ y)) = 0 := by
      refine List.countP_eq_zero.2 fun r' hr' => ?_
      obtain ⟨m, hm, rfl⟩ := List.mem_map.1 hr'
      obtain rfl := List.mem_singleton.1 (List.mem_filter.1 hm).1
      simpa using hkind
    have hsplit : (b.handle peer q).2.sentTo y
        = Dispatch.sentTo ⟨sent, []⟩ y ++ Dispatch.sentTo ⟨[(peer, r)], []⟩ y := by
      simp only [Dispatch.sentTo, hout, List.filter_append, List.map_append]
    rw [hsplit, copies, List.countP_append]
    exact (Nat.add_le_add (List.countP_le_length.trans (length_sentTo_le hnodup y))
      hlast.le).trans_eq rfl
  · rw [b.handle_unanswered peer (by simpa using hq)]
    exact Nat.zero_le 1

/-- A client is delivered at most as many copies as its broker processes payloads. -/
theorem copies_le (frames : List Frame) (b : Broker) (y : String) :
    copies (b.sentDuring frames y) ≤ frames.length := by
  induction frames generalizing b with
  | nil => exact Nat.le_refl 0
  | cons f fs ih =>
    rw [sentDuring, copies, List.countP_append, List.length_cons, Nat.add_comm]
    exact Nat.add_le_add (ih _) (b.copies_sentTo_le f.sender f.payload y)

/-- The copies that a client of the broker `peer` is delivered of what a dispatch of the broker `b`
forwards to `peer`, known as `i`. -/
def copiesOf (b : Broker) (d : Dispatch) (peer : Broker) (i y : String) : Nat :=
  copies (peer.sentDuring ((d.forwardsTo i).map (Frame.mk b.id)) y)

/-- A peer is handed a publication as often as it has entries that the geofence reaches. For every
list of areas that a broker accepts, in every state that it can get into and for every payload, the
brokers that it forwards to are distinct, unless the payload is a publication that it hands to its
peers, whose geofence reaches several entries of one peer; this one is handed the publication for
each of them. A client of a peer, in whatever state that is, is delivered a copy at most for each
forward to it: so one, if the brokers are distinct, and they are if the entries of the peers
are. -/
theorem forwarded_once_iff {id : String} {areas : List BrokerArea} {atlas : Atlas}
    (hatlas : Atlas.ofAreas id areas = .ok atlas) (policy : ForwardingPolicy) (frames : List Frame)
    (c : String) (q : Payload) :
    let b := (start atlas policy).after frames
    let d := (b.handle c q).2
    ((d.forwards.map (·.1.id)).Nodup ↔ ¬ ∃ p, q = .publish p ∧ b.Spreads c p ∧
      ∃ i, i ≠ id ∧ 1 < entriesWithin areas i p.geofence) ∧
    (∀ p, q = .publish p → b.Spreads c p → ∀ i, i ≠ id →
      (d.forwardsTo i).length = entriesWithin areas i p.geofence) ∧
    (∀ peer i y, b.copiesOf d peer i y ≤ (d.forwardsTo i).length) ∧
    ((d.forwards.map (·.1.id)).Nodup → ∀ peer i y, b.copiesOf d peer i y ≤ 1) ∧
    (((areas.filter fun a => a.broker.id ≠ id).map (·.broker.id)).Nodup →
      (d.forwards.map (·.1.id)).Nodup) := by
  intro b d
  have hareas : Atlas.ofAreas id areas = .ok b.atlas := by
    rw [hatlas, atlas_after, start]
  have hiff := nodup_forwards_iff hareas c q
  have hcopies (peer : Broker) (i y : String) :
      b.copiesOf d peer i y ≤ (d.forwardsTo i).length :=
    (copies_le _ peer y).trans_eq (List.length_map _)
  refine ⟨hiff, fun p hq hp i hi => ?_, hcopies, fun hnodup peer i y => ?_, fun hdistinct => ?_⟩
  · subst hq
    rw [length_forwardsTo_ofAreas hareas hp, if_neg hi]
  · exact (hcopies peer i y).trans (Dispatch.nodup_forwards_iff.1 hnodup i)
  · rw [hiff]
    rintro ⟨p, -, -, i, hi, hlt⟩
    exact absurd hlt (Nat.not_lt.2 (entriesWithin_le_one hdistinct hi p.geofence))

/-- The root is handed what a car publishes once, and nobody there is delivered it twice. -/
theorem cityAndRoot_forwarded_once :
    let b := ofCity.after [⟨"car", .connect (some ⟨52.5, 13.4⟩)⟩]
    let d := (b.handle "car" (.publish ⟨⟨"news"⟩, .world, "x"⟩)).2
    d.forwards.length = 1 ∧ (d.forwards.map (·.1.id)).Nodup ∧
      ∀ peer y, b.copiesOf d peer "cloud" y ≤ 1 := by
  intro b d
  have H : Chartable cityAndRoot := ⟨by decide, by decide⟩
  obtain ⟨-, -, -, hcopies, hnodup⟩ := forwarded_once_iff
    (H.ofAreas_eq (a := cityAndRoot[0]) (by simp [cityAndRoot])) .forwardAll
    [⟨"car", .connect (some ⟨52.5, 13.4⟩)⟩] "car" (.publish ⟨⟨"news"⟩, .world, "x"⟩)
  exact ⟨by decide +kernel, hnodup (by decide), fun peer y => hcopies (hnodup (by decide)) peer _ y⟩

/-- Berlin, and two parts of Paris under one broker. -/
def parisTwice : List BrokerArea :=
  [⟨⟨"berlin", "127.0.0.1:6001"⟩, .rectangle ⟨52, 13⟩ ⟨53, 14⟩, false⟩,
    ⟨⟨"paris", "127.0.0.1:6002"⟩, .rectangle ⟨48, 2⟩ ⟨49, 3⟩, false⟩,
    ⟨⟨"paris", "127.0.0.1:6002"⟩, .rectangle ⟨43, 5⟩ ⟨44, 6⟩, false⟩]

/-- The broker of Berlin accepts these areas. It hands what a car publishes within the world to the
broker of Paris twice, which then delivers it to a subscriber twice. -/
theorem parisTwice_forwarded_twice :
    Atlas.ofAreas "berlin" parisTwice = .ok (.view parisTwice parisTwice[0]) ∧
    let b := (start (.view parisTwice parisTwice[0]) .forwardAll).after
      [⟨"car", .connect (some ⟨52.5, 13.4⟩)⟩]
    let d := (b.handle "car" (.publish ⟨⟨"news"⟩, .world, "x"⟩)).2
    let paris := (start (.view parisTwice parisTwice[1]) .forwardAll).after
      [⟨"reader", .connect (some ⟨48.5, 2.5⟩)⟩, ⟨"reader", .subscribe ⟨"news"⟩ .world⟩]
    d.forwards.map (·.1.id) = ["paris", "paris"] ∧ b.copiesOf d paris "paris" "reader" = 2 :=
  ⟨rfl, by decide +kernel, by decide +kernel⟩

end Broker

end Geocast
