import Geocast.Proofs.Broker.Matching
import Geocast.Proofs.Federation.Run

/-! # Matching across brokers

A publication is matched by the broker of its publisher and by every peer that it is forwarded to,
each with its own clients. Taken together this is one matching over all clients of all brokers
(`publication_reaches_matching`): a registered channel gets the publication exactly if its client
matches, and gets it once, because a channel is registered at one broker only and no broker is
forwarded to twice. -/

namespace Geocast

namespace Broker

variable {b : Broker} {c : String} {l : Location} {p : Publication}

/-- A publication from `l` has a subscriber among the clients of the broker of its publisher. -/
def FindsLocally (b : Broker) (l : Location) (p : Publication) : Prop :=
  b.atlas.reaches p.geofence ∧ ∃ c, b.Matches l p c

/-- The policy of a broker keeps a publication of the client `c` at `l` away from the peers. -/
def KeepsLocal (b : Broker) (c : String) (l : Location) (p : Publication) : Prop :=
  b.FindsLocally l p ∧ b.policy ⟨c, p.topic, .success⟩ ∨
    ¬ b.FindsLocally l p ∧ b.policy ⟨c, p.topic, .noMatchingSubscribers⟩

theorem matchResult_delivered (H : Coherent b) (l : Location) (p : Publication) :
    (b.FindsLocally l p → matchResult (b.delivered l p) = .success) ∧
    (¬ b.FindsLocally l p → matchResult (b.delivered l p) = .noMatchingSubscribers) := by
  obtain ⟨hsuccess, hnone⟩ := b.matchResult_deliveries l p
  simp only [mem_subscribers H] at hsuccess hnone
  unfold FindsLocally delivered
  split
  · next hreach =>
    exact ⟨fun h => hsuccess.2 h.2, fun h => hnone.2 fun hc => h ⟨hreach, hc⟩⟩
  · next hreach => exact ⟨fun h => absurd h.1 hreach, fun _ => rfl⟩

theorem keepsLocal_iff (H : Coherent b) : b.KeepsLocal c l p ↔
    b.policy ⟨c, p.topic, matchResult (b.delivered l p)⟩ := by
  obtain ⟨hsuccess, hnone⟩ := matchResult_delivered H l p
  by_cases h : b.FindsLocally l p
  · simp [KeepsLocal, h, hsuccess h]
  · simp [KeepsLocal, h, hnone h]

theorem nodup_subscribers (b : Broker) (l : Location) (p : Publication) :
    (b.subscribers l p).Nodup :=
  (pairwise_ascending _).imp ne_of_lt

end Broker

namespace Federation

variable {areas : List BrokerArea} {f : Federation} {a : BrokerArea} {address c : String} {k : Nat}
  {p : Publication} {l : Location}

/-- The publications among payloads on their way that go to the channel numbered `k`. -/
def publicationsTo (k : Nat) (mail : List (Nat × Payload)) : List Publication :=
  mail.filterMap fun m => if m.1 = k then m.2.publication? else none

theorem publicationsTo_append (k : Nat) (mail mail' : List (Nat × Payload)) :
    publicationsTo k (mail ++ mail') = publicationsTo k mail ++ publicationsTo k mail' :=
  List.filterMap_append

theorem publicationsTo_flatMap {α : Type} (k : Nat) (g : α → List (Nat × Payload)) (l : List α) :
    publicationsTo k (l.flatMap g) = l.flatMap fun x => publicationsTo k (g x) := by
  induction l with
  | nil => rfl
  | cons x l ih => rw [List.flatMap_cons, publicationsTo_append, ih, List.flatMap_cons]

theorem publicationsTo_eq_nil {mail : List (Nat × Payload)} (h : ∀ m ∈ mail, m.1 ≠ k) :
    publicationsTo k mail = [] :=
  List.filterMap_eq_nil_iff.2 fun m hm => if_neg (h m hm)

/-! ## One dispatch -/

section
variable {connections : Table String Nat}

theorem routed_append (connections : Table String Nat) (out out' : List (String × Payload)) :
    routed connections (out ++ out') = routed connections out ++ routed connections out' :=
  List.filterMap_append

theorem publicationsTo_routed_reply (k : Nat) (connections : Table String Nat) (c : String)
    {q : Payload} (hq : q.publication? = none) :
    publicationsTo k (routed connections [(c, q)]) = [] := by
  refine List.filterMap_eq_nil_iff.2 fun m hm => ?_
  obtain ⟨c', hc', -⟩ := mem_routed.1 hm
  have hmq : m.2 = q := congrArg Prod.snd (List.mem_singleton.1 hc')
  rw [hmq, hq]
  split <;> rfl

/-- A publication sent to different clients reaches a channel once, if that is registered under one
of them, and under no other. -/
theorem publicationsTo_routed_publish (hc : connections.get? c = some k)
    (honce : ∀ c', connections.get? c' = some k → c' = c) {clients : List String}
    (hclients : clients.Nodup) (p : Publication) :
    publicationsTo k (routed connections (clients.map fun c => (c, .publish p))) =
      if c ∈ clients then [p] else [] := by
  induction clients with
  | nil => rfl
  | cons c' clients ih =>
    obtain ⟨hc', hclients⟩ := List.nodup_cons.1 hclients
    have hhead : publicationsTo k (routed connections [(c', .publish p)]) =
        if c = c' then [p] else [] := by
      by_cases he : c = c'
      · subst he
        simp [publicationsTo, routed, hc, Payload.publication?]
      · rw [if_neg he]
        refine publicationsTo_eq_nil fun m hm hk => he ?_
        obtain ⟨c'', hm, hget⟩ := mem_routed.1 hm
        obtain rfl : c'' = c' := congrArg Prod.fst (List.mem_singleton.1 hm)
        exact (honce c'' (hk ▸ hget)).symm
    rw [List.map_cons, ← List.singleton_append, routed_append, publicationsTo_append, hhead,
      ih hclients]
    by_cases he : c = c'
    · subst he
      simp [hc']
    · simp [he]

end

/-! ## The dispatches of all brokers -/

theorem publicationsTo_routed_of_forall {n : Node} (h : f.nodes.get? address = some n)
    (hnone : ∀ c, f.connection? address c ≠ some k) (out : List (String × Payload)) :
    publicationsTo k (routed n.connections out) = [] := by
  refine publicationsTo_eq_nil fun m hm hk => ?_
  obtain ⟨c, -, hc⟩ := mem_routed.1 hm
  exact hnone c ((connection?_of_get? h c).trans (hk ▸ hc))

/-- What the broker of the publisher delivers itself to a channel registered there. -/
theorem publicationsTo_published (H : Charted areas f) {n : Node}
    (hn : f.nodes.get? address = some n) (hcoherent : n.broker.Coherent)
    (hc : f.connection? address c = some k) (x : String) (l : Location) (p : Publication) :
    (n.broker.atlas.reaches p.geofence ∧ n.broker.Matches l p c →
      publicationsTo k (routed n.connections (n.broker.publishFrom x l p).outgoing) = [p]) ∧
    (¬ (n.broker.atlas.reaches p.geofence ∧ n.broker.Matches l p c) →
      publicationsTo k (routed n.connections (n.broker.publishFrom x l p).outgoing) = []) := by
  obtain ⟨reason, hout⟩ := n.broker.publishFrom_outgoing x l p
  have hget : n.connections.get? c = some k := (connection?_of_get? hn c).symm.trans hc
  have honce (c' : String) (hc' : n.connections.get? c' = some k) : c' = c :=
    (H.once hc ((connection?_of_get? hn c').trans hc')).2
  rw [hout, routed_append, publicationsTo_append, publicationsTo_routed_reply k _ x rfl,
    List.append_nil]
  unfold Broker.delivered
  split
  · next hreach =>
    have hmem : c ∈ n.broker.subscribers l p ↔ n.broker.Matches l p c :=
      Broker.mem_subscribers hcoherent
    rw [Broker.deliveries, publicationsTo_routed_publish hget honce
      (n.broker.nodup_subscribers l p)]
    exact ⟨fun h => if_pos (hmem.2 h.2), fun h => if_neg fun hm => h ⟨hreach, hmem.1 hm⟩⟩
  · next hreach => exact ⟨fun h => absurd h.1 hreach, fun _ => rfl⟩

/-- What a peer delivers of a forwarded publication to a channel registered there. -/
theorem publicationsTo_forwarded (H : Charted areas f) {n : Node}
    (hn : f.nodes.get? address = some n) (hcoherent : n.broker.Coherent)
    (hc : f.connection? address c = some k) (peer : String) (l : Location) (p : Publication) :
    (n.broker.Matches l p c → publicationsTo k
      (routed n.connections (n.broker.receiveForward peer p (some l)).outgoing) = [p]) ∧
    (¬ n.broker.Matches l p c → publicationsTo k
      (routed n.connections (n.broker.receiveForward peer p (some l)).outgoing) = []) := by
  have hget : n.connections.get? c = some k := (connection?_of_get? hn c).symm.trans hc
  have honce (c' : String) (hc' : n.connections.get? c' = some k) : c' = c :=
    (H.once hc ((connection?_of_get? hn c').trans hc')).2
  have hout : (n.broker.receiveForward peer p (some l)).outgoing =
      ((n.broker.subscribers l p).map fun c => (c, .publish p)) ++
        [(peer, .pubAck (Broker.matchResult (n.broker.deliveries l p)))] := rfl
  rw [hout, routed_append, publicationsTo_append, publicationsTo_routed_reply k _ peer rfl,
    List.append_nil, publicationsTo_routed_publish hget honce (n.broker.nodup_subscribers l p)]
  have hmem : c ∈ n.broker.subscribers l p ↔ n.broker.Matches l p c :=
    Broker.mem_subscribers hcoherent
  exact ⟨fun h => if_pos (hmem.2 h), fun h => if_neg fun hm => h (hmem.1 hm)⟩

/-- Of different elements only one yields anything. -/
theorem flatMap_eq_of_only {α β : Type} {l : List α} (hl : l.Nodup) {g : α → List β} {x : α}
    (hx : x ∈ l) (honly : ∀ y ∈ l, y ≠ x → g y = []) : l.flatMap g = g x := by
  induction l with
  | nil => exact nomatch hx
  | cons y l ih =>
    obtain ⟨hy, hl⟩ := List.nodup_cons.1 hl
    obtain ⟨hhead, htail⟩ := List.forall_mem_cons.1 honly
    rw [List.flatMap_cons]
    rcases List.mem_cons.1 hx with rfl | hx
    · have hnone : l.flatMap g = [] :=
        List.flatMap_eq_nil_iff.2 fun z hz => htail z hz fun hzx => hy (hzx ▸ hz)
      rw [hnone, List.append_nil]
    · rw [hhead fun hyx => hy (hyx ▸ hx), List.nil_append, ih hl hx htail]

/-- What a located client's publication adds to the mail. -/
theorem mail_publish {n : Node} (hn : f.nodes.get? address = some n)
    (hl : n.broker.roster.location? c = some l) (p : Publication) :
    (f.deliver address c (.publish p)).mail = f.mail ++
      (routed n.connections (n.broker.publishFrom c l p).outgoing ++
        (n.broker.publishFrom c l p).forwards.flatMap (f.relayed n.broker.id)) := by
  have hsame : f.nodes.modify address (fun n' => { n' with broker := n.broker }) = f.nodes := by
    refine Table.modify_eq_self fun n' hn' => ?_
    obtain rfl := Option.some.inj (hn.symm.trans hn')
    rfl
  have hrelayed : (f.handled address n c (.publish p)).relayed n.broker.id =
      f.relayed n.broker.id := by
    funext m
    unfold relayed Federation.addressOf? handled
    rw [Broker.handle_publish hl, hsame]
  rw [deliver_mail hn, hrelayed, Broker.handle_publish hl]

/-- A channel registered with a peer gets what that delivers, if it is forwarded to, and nothing
from any other peer. -/
theorem publicationsTo_forwards (H : Charted areas f) (hid : (areas.map (·.broker.id)).Nodup)
    (ha : a ∈ areas) {n : Node} (hn : f.nodes.get? a.broker.address = some n)
    (hc : f.connection? a.broker.address c = some k) (sender : String) (l : Location)
    (p : Publication) {peers : List BrokerArea} (hpeers : ∀ b ∈ peers, b ∈ areas)
    (hnodup : peers.Nodup) :
    (a ∈ peers ∧ n.broker.Matches l p c →
      publicationsTo k ((peers.map fun b => (b.broker, Payload.forwardPublish p (some l))).flatMap
        (f.relayed sender)) = [p]) ∧
    (¬ (a ∈ peers ∧ n.broker.Matches l p c) →
      publicationsTo k ((peers.map fun b => (b.broker, Payload.forwardPublish p (some l))).flatMap
        (f.relayed sender)) = []) := by
  have hrelayed {b : BrokerArea} (hb : b ∈ areas) {n' : Node}
      (hn' : f.nodes.get? b.broker.address = some n') :
      f.relayed sender (b.broker, .forwardPublish p (some l)) =
        routed n'.connections (n'.broker.receiveForward sender p (some l)).outgoing := by
    rw [relayed, H.addressOf? hid hb, Option.bind_some, hn']
    rfl
  have hother {b : BrokerArea} (hb : b ∈ peers) (hba : b ≠ a) :
      publicationsTo k (f.relayed sender (b.broker, .forwardPublish p (some l))) = [] := by
    obtain ⟨n', hn', -⟩ := H.node b (hpeers b hb)
    rw [hrelayed (hpeers b hb) hn']
    refine publicationsTo_routed_of_forall hn' (fun c' hc' => hba ?_) _
    exact H.eq_of_address (hpeers b hb) ha (H.once hc hc').1
  obtain ⟨hmatch, hnone⟩ :=
    publicationsTo_forwarded H hn (H.runs ha hn).coherent hc sender l p
  rw [publicationsTo_flatMap, List.flatMap_map]
  by_cases hmem : a ∈ peers
  · rw [flatMap_eq_of_only hnodup hmem fun b hb hba => hother hb hba, hrelayed ha hn]
    exact ⟨fun h => hmatch h.2, fun h => hnone fun hm => h ⟨hmem, hm⟩⟩
  · refine ⟨fun h => absurd h.1 hmem, fun _ => List.flatMap_eq_nil_iff.2 fun b hb => ?_⟩
    exact hother hb fun hba => hmem (hba ▸ hb)

/-- The areas that a publication from the broker of the area `a` is forwarded to. -/
theorem mem_forwarded (hid : (areas.map (·.broker.id)).Nodup) {b : BrokerArea} (ha : a ∈ areas)
    (hb : b ∈ areas) (g : Geofence) :
    b ∈ (Atlas.view areas a).others.filter (·.area.intersects g) ↔
      b ≠ a ∧ b.area.intersects g := by
  rw [List.mem_filter, Atlas.view, List.mem_filter, decide_eq_true_eq]
  refine and_congr_left fun _ => ⟨fun h hba => h.2 (hba ▸ rfl), fun h => ⟨hb, fun he => h ?_⟩⟩
  exact List.inj_on_of_nodup_map hid hb ha he

/-! ## All channels -/

theorem forwards_eq {n : Node} (hr : Runs areas a n) (x : String) (l : Location) (p : Publication) :
    (n.broker.KeepsLocal x l p → (n.broker.publishFrom x l p).forwards = []) ∧
    (¬ n.broker.KeepsLocal x l p → (n.broker.publishFrom x l p).forwards =
      ((Atlas.view areas a).others.filter (·.area.intersects p.geofence)).map fun b =>
        (b.broker, .forwardPublish p (some l))) := by
  rw [Broker.keepsLocal_iff hr.coherent, Broker.publishFrom_forwards]
  refine ⟨fun h => if_pos h, fun h => (if_neg h).trans ?_⟩
  rw [hr.atlas, Atlas.peersWithin, List.map_map]
  rfl

/-- What a publication brings to a channel, of the own broker and the peers together. -/
theorem publicationsTo_sent (H : Charted areas f) (hid : (areas.map (·.broker.id)).Nodup)
    {a₀ : BrokerArea} (ha₀ : a₀ ∈ areas) {n₀ : Node}
    (hn₀ : f.nodes.get? a₀.broker.address = some n₀) (ha : a ∈ areas) {n : Node}
    (hn : f.nodes.get? a.broker.address = some n)
    (hc : f.connection? a.broker.address c = some k) (x : String) (l : Location)
    (p : Publication) :
    let new := routed n₀.connections (n₀.broker.publishFrom x l p).outgoing ++
      (n₀.broker.publishFrom x l p).forwards.flatMap (f.relayed n₀.broker.id)
    let meant := a.area.intersects p.geofence ∧ (a = a₀ ∨ ¬ n₀.broker.KeepsLocal x l p) ∧
      n.broker.Matches l p c
    (meant → publicationsTo k new = [p]) ∧ (¬ meant → publicationsTo k new = []) := by
  intro new meant
  have hr₀ : Runs areas a₀ n₀ := H.runs ha₀ hn₀
  have hnodup : ((Atlas.view areas a₀).others.filter (·.area.intersects p.geofence)).Nodup :=
    ((List.Nodup.of_map _ hid).filter _).filter _
  have hpeers : ∀ b ∈ (Atlas.view areas a₀).others.filter (·.area.intersects p.geofence),
      b ∈ areas := fun b hb => (List.mem_filter.1 (List.mem_filter.1 hb).1).1
  obtain ⟨hforwarded, hunforwarded⟩ :=
    publicationsTo_forwards H hid ha hn hc n₀.broker.id l p hpeers hnodup
  obtain ⟨hkept, hopen⟩ := forwards_eq hr₀ x l p
  rw [mem_forwarded hid ha₀ ha] at hforwarded hunforwarded
  have hnew : publicationsTo k new =
      publicationsTo k (routed n₀.connections (n₀.broker.publishFrom x l p).outgoing) ++
        publicationsTo k ((n₀.broker.publishFrom x l p).forwards.flatMap
          (f.relayed n₀.broker.id)) := publicationsTo_append ..
  by_cases haa : a = a₀
  · -- the channel is registered with the broker of the publisher, which does not forward to itself
    subst haa
    obtain rfl := Option.some.inj (hn.symm.trans hn₀)
    have hnone : publicationsTo k ((n.broker.publishFrom x l p).forwards.flatMap
        (f.relayed n.broker.id)) = [] := by
      by_cases hkeep : n.broker.KeepsLocal x l p
      · rw [hkept hkeep]
        rfl
      · rw [hopen hkeep]
        exact hunforwarded fun h => h.1.1 rfl
    obtain ⟨hreached, hunreached⟩ := publicationsTo_published H hn hr₀.coherent hc x l p
    have hreaches : n.broker.atlas.reaches p.geofence = a.area.intersects p.geofence := by
      rw [hr₀.atlas]
      rfl
    rw [hreaches] at hreached hunreached
    rw [hnew, hnone, List.append_nil]
    exact ⟨fun h => hreached ⟨h.1, h.2.2⟩, fun h => hunreached fun h' => h ⟨h'.1, .inl rfl, h'.2⟩⟩
  · have hnone : publicationsTo k
        (routed n₀.connections (n₀.broker.publishFrom x l p).outgoing) = [] := by
      refine publicationsTo_routed_of_forall hn₀ (fun c' hc' => haa ?_) _
      exact (H.eq_of_address ha₀ ha (H.once hc hc').1).symm
    rw [hnew, hnone, List.nil_append]
    by_cases hkeep : n₀.broker.KeepsLocal x l p
    · rw [hkept hkeep]
      exact ⟨fun h => absurd hkeep (h.2.1.resolve_left haa), fun _ => rfl⟩
    · rw [hopen hkeep]
      exact ⟨fun h => hforwarded ⟨⟨haa, h.1⟩, h.2.2⟩,
        fun h => hunforwarded fun h' => h ⟨h'.1.2, .inr hkeep, h'.2⟩⟩

/-- In every state that a federation reaches whose areas have different ids and addresses, a
publication from a client whose broker knows its location goes, once, to the channel of each client
that it matches, if the area of the client's broker is reached and that is the publisher's own
broker or the own broker does not keep the publication local. It goes to no other channel. What is
forwarded are publications, and no broker forwards one again. -/
theorem publication_reaches_matching {calendar : Nat → Nat} {f₀ : Federation} {a₀ : BrokerArea}
    {b₀ : Broker} {channel : FederationChannel} (hid : (areas.map (·.broker.id)).Nodup)
    (haddress : (areas.map (·.broker.address)).Nodup) (h₀ : ofAreas calendar areas = .ok f₀)
    (acts : List Act) (ha₀ : a₀ ∈ areas)
    (hb₀ : (f₀.after acts).brokerAt? a₀.broker.address = some b₀)
    (hchannel : channel.address = a₀.broker.address)
    (hl : b₀.roster.location? channel.clientId = some l) (p : Publication) :
    let f := f₀.after acts
    ∃ new, (send channel (.publish p) f).2.mail = f.mail ++ new ∧
      (∀ a ∈ areas, ∀ b c k, f.brokerAt? a.broker.address = some b →
        f.connection? a.broker.address c = some k →
        let meant := a.area.intersects p.geofence ∧
          (a = a₀ ∨ ¬ b₀.KeepsLocal channel.clientId l p) ∧ b.Matches l p c
        (meant → publicationsTo k new = [p]) ∧ (¬ meant → publicationsTo k new = [])) ∧
      (∀ k, (∀ address c, f.connection? address c ≠ some k) → publicationsTo k new = []) ∧
      (∀ m ∈ (b₀.handle channel.clientId (.publish p)).2.forwards,
        (∃ q l, m.2 = .forwardPublish q l) ∧
        ∀ b : Broker, (b.handle b₀.id m.2).2.forwards = []) ∧
      ∀ depth, deliverWithin (depth + 2) f channel.address channel.clientId (.publish p) =
        (send channel (.publish p) f).2 := by
  intro f
  have H : Charted areas f := (charted_ofAreas hid haddress h₀).after acts
  obtain ⟨n₀, hn₀, rfl⟩ := Option.map_eq_some_iff.1 hb₀
  have hmail := mail_publish (f := f) (hchannel ▸ hn₀) hl p
  refine ⟨_, hmail, fun a ha b c k hb hc => ?_, fun k hnone => ?_, fun m hm => ?_, fun depth => ?_⟩
  · obtain ⟨n, hn, rfl⟩ := Option.map_eq_some_iff.1 hb
    exact publicationsTo_sent H hid ha₀ hn₀ ha hn hc channel.clientId l p
  · refine publicationsTo_eq_nil fun m hm hk => ?_
    have hregistered : ∃ address c, f.connection? address c = some m.1 := by
      rcases List.mem_append.1 hm with hm | hm
      · exact connection?_of_mem_routed hn₀ hm
      · obtain ⟨t, -, hm⟩ := List.mem_flatMap.1 hm
        exact connection?_of_mem_relayed hm
    obtain ⟨address, c, hc⟩ := hregistered
    exact hnone address c (hk ▸ hc)
  · obtain ⟨q, l', hq⟩ := Broker.forwards_publications hm
    exact ⟨⟨q, l', hq⟩, fun b => hq ▸ b.receiveForward_forwards _ q l'⟩
  · exact deliverWithin_eq_deliver depth f channel.address channel.clientId (.publish p)

/-- A client of the root out at sea, and a subscriber in the city. -/
def seaAndCity : Federation :=
  (addBrokers cityAndRoot (empty Nat.succ) cityAndRoot).after
    [.dial "127.0.0.1:6000" "ship", .send ⟨0, "127.0.0.1:6000", "ship"⟩ (.connect (some ⟨40, -30⟩)),
      .dial "127.0.0.1:6001" "pilot",
      .send ⟨1, "127.0.0.1:6001", "pilot"⟩ (.connect (some ⟨52.5, 13.4⟩)),
      .send ⟨1, "127.0.0.1:6001", "pilot"⟩ (.subscribe ⟨"arrivals"⟩ .world)]

/-- What the ship publishes at the root goes to the pilot in the city, once. -/
theorem seaAndCity_reaches_pilot :
    ∃ new, (send ⟨0, "127.0.0.1:6000", "ship"⟩ (.publish ⟨⟨"arrivals"⟩, .world, "noon"⟩)
        seaAndCity).2.mail = seaAndCity.mail ++ new ∧
      publicationsTo 1 new = [⟨⟨"arrivals"⟩, .world, "noon"⟩] := by
  have hid : (cityAndRoot.map (·.broker.id)).Nodup := by decide
  have haddress : (cityAndRoot.map (·.broker.address)).Nodup := by decide
  have h₀ : ofAreas Nat.succ cityAndRoot =
      .ok (addBrokers cityAndRoot (empty Nat.succ) cityAndRoot) :=
    ofAreas_eq Nat.succ ⟨hid, by decide⟩
  have H : Charted cityAndRoot seaAndCity := (charted_ofAreas hid haddress h₀).after _
  have hcity : cityAndRoot[0] ∈ cityAndRoot := by simp [cityAndRoot]
  have hroot : cityAndRoot[1] ∈ cityAndRoot := by simp [cityAndRoot]
  obtain ⟨n, hn, hr⟩ := H.node _ hcity
  obtain ⟨n₀, hn₀, -⟩ := H.node _ hroot
  have hb : seaAndCity.brokerAt? "127.0.0.1:6001" = some n.broker := by
    rw [brokerAt?, show seaAndCity.nodes.get? "127.0.0.1:6001" = some n from hn, Option.map_some]
  have hb₀ : seaAndCity.brokerAt? "127.0.0.1:6000" = some n₀.broker := by
    rw [brokerAt?, show seaAndCity.nodes.get? "127.0.0.1:6000" = some n₀ from hn₀, Option.map_some]
  have hmatch : (((seaAndCity.brokerAt? "127.0.0.1:6000").bind (·.roster.location? "ship")).any
      fun l => (seaAndCity.brokerAt? "127.0.0.1:6001").any fun b =>
        decide ("pilot" ∈ b.subscribers l ⟨⟨"arrivals"⟩, .world, "noon"⟩)) = true := by
    decide +kernel
  have hpolicy : ((seaAndCity.brokerAt? "127.0.0.1:6000").any fun b =>
      !b.policy ⟨"ship", ⟨"arrivals"⟩, .success⟩ &&
        !b.policy ⟨"ship", ⟨"arrivals"⟩, .noMatchingSubscribers⟩) = true := by
    decide +kernel
  rw [hb₀] at hmatch hpolicy
  obtain ⟨l, hl, hsubscriber⟩ := (Option.any_eq_true _ _).1 hmatch
  rw [hb] at hsubscriber
  have hchannel : FederationChannel.address ⟨0, "127.0.0.1:6000", "ship"⟩ = "127.0.0.1:6000" := rfl
  obtain ⟨new, hmail, hreaches, -⟩ := publication_reaches_matching hid haddress h₀ _ hroot hb₀
    hchannel hl ⟨⟨"arrivals"⟩, .world, "noon"⟩
  refine ⟨new, hmail, (hreaches _ hcity _ "pilot" 1 hb (by decide +kernel)).1 ⟨?_, .inr ?_, ?_⟩⟩
  · decide +kernel
  · simp only [Option.any_some, Bool.and_eq_true, Bool.not_eq_true'] at hpolicy
    simp [Broker.KeepsLocal, hpolicy]
  · exact (Broker.mem_subscribers hr.coherent).1 (by simpa using hsubscriber)

end Federation

end Geocast
