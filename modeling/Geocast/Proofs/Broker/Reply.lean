import Geocast.Proofs.Broker.Matching
import Geocast.Proofs.Broker.Publication
import Geocast.Proofs.Broker.Responsibility

/-! # One reply to each request

Clients tell replies apart by their kind only, so they rely on one reply to each request. Whatever
state a broker is in, what it sends for a request is the publication that the request carries, to
some clients, and then the reply to the sender (`handle_replied`). It answers nothing else, and it
forwards publications only, to other brokers than itself. -/

namespace Geocast

namespace Payload

/-- The kind of the acknowledgement that a payload has from a broker. -/
def ackKind? : Payload → Option PayloadKind
  | connect _ => some .connAck
  | pingReq _ => some .pingResp
  | subscribe .. => some .subAck
  | unsubscribe _ => some .unsubAck
  | publish _ | forwardPublish .. => some .pubAck
  | _ => none

/-- The publication that a payload hands to a broker. -/
def carried? : Payload → Option Publication
  | publish p | forwardPublish p _ => some p
  | _ => none

/-- Whether `r` answers `p`: by the acknowledgement that belongs to it, or by a disconnect, which
only payloads that say where a client is can bring about. -/
def Replies (r p : Payload) : Prop :=
  p.ackKind? = some r.kind ∨ r.kind = .disconnect ∧ p.kind ∈ [.connect, .pingReq, .publish]

end Payload

/-- What is sent because of the payload `p` of a peer: copies of the publication that it carries, no
two to the same client, and then the reply `r` to the peer. -/
def Dispatch.RepliesWith (d : Dispatch) (peer : String) (p r : Payload) : Prop :=
  ∃ copies : List (String × Payload), d.outgoing = copies ++ [(peer, r)] ∧
    (copies.map Prod.fst).Nodup ∧ ∀ m ∈ copies, ∃ q, p.carried? = some q ∧ m.2 = .publish q

theorem Dispatch.RepliesWith.of_single {d : Dispatch} {peer : String} {p r : Payload}
    (h : d.outgoing = [(peer, r)]) : d.RepliesWith peer p r :=
  ⟨[], h, List.nodup_nil, List.forall_mem_nil _⟩

/-! ## The peers in an atlas -/

namespace Atlas

variable {a : Atlas} {t : BrokerInfo}

/-- The ways to build an atlas. -/
inductive Built : Atlas → Prop
  | ofAreas {id : String} {areas : List BrokerArea} {a : Atlas} :
    Atlas.ofAreas id areas = .ok a → Built a
  | ofFile {id path : String} {content : Option String} {a : Atlas} :
    Atlas.ofFile id path content = .ok a → Built a
  | standalone (own : BrokerArea) : Built (.standalone own)

/-- No peer has the id of the broker itself. -/
def Foreign (a : Atlas) : Prop := ∀ o ∈ a.others, o.broker.id ≠ a.own.broker.id

theorem foreign_ofAreas {id : String} {areas : List BrokerArea}
    (h : ofAreas id areas = .ok a) : a.Foreign := by
  unfold ofAreas at h
  split at h
  · exact nomatch h
  · split at h
    · exact nomatch h
    · next own hown =>
      cases h
      intro o ho
      have hid : own.broker.id = id := by simpa using List.find?_some hown
      rw [hid]
      simpa using (List.mem_filter.1 ho).2

theorem Built.foreign (H : a.Built) : a.Foreign := by
  cases H with
  | ofAreas h => exact foreign_ofAreas h
  | ofFile h =>
    unfold Atlas.ofFile at h
    split at h
    · exact nomatch h
    · split at h
      · exact nomatch h
      · exact foreign_ofAreas h
  | standalone own => exact List.forall_mem_nil _

end Atlas

namespace Broker

variable {b : Broker} {c peer : String} {p : Payload}

/-! ## The reply -/

theorem redirect_replied (b : Broker) (c : String) (l : Option Location)
    (hp : p.kind ∈ [.connect, .pingReq, .publish]) :
    ∃ r, (b.redirect c l).2.RepliesWith c p r ∧ r.Replies p :=
  ⟨_, .of_single rfl, .inr ⟨rfl, hp⟩⟩

theorem connect_replied (b : Broker) (c : String) (l : Option Location) :
    ∃ r, (b.connect c l).2.RepliesWith c (.connect l) r ∧ r.Replies (.connect l) := by
  unfold connect
  split
  · split
    · exact ⟨_, .of_single rfl, .inl rfl⟩
    · exact ⟨_, .of_single rfl, .inr ⟨rfl, by simp [Payload.kind]⟩⟩
  · exact b.redirect_replied c l (by simp [Payload.kind])

theorem ping_replied (b : Broker) (c : String) (l : Option Location) :
    ∃ r, (b.ping c l).2.RepliesWith c (.pingReq l) r ∧ r.Replies (.pingReq l) := by
  unfold ping
  split
  · split <;> exact ⟨_, .of_single rfl, .inl rfl⟩
  · exact b.redirect_replied c l (by simp [Payload.kind])

theorem subscribe_replied (b : Broker) (c : String) (t : Topic) (g : Geofence) :
    ∃ r, (b.subscribe c t g).2.RepliesWith c (.subscribe t g) r ∧ r.Replies (.subscribe t g) := by
  unfold subscribe
  split <;> exact ⟨_, .of_single rfl, .inl rfl⟩

theorem unsubscribe_replied (b : Broker) (c : String) (t : Topic) :
    ∃ r, (b.unsubscribe c t).2.RepliesWith c (.unsubscribe t) r ∧ r.Replies (.unsubscribe t) := by
  unfold unsubscribe
  split <;> exact ⟨_, .of_single rfl, .inl rfl⟩

/-- Nobody is delivered a publication twice. -/
theorem deliveries_copies {q : Publication} (h : p.carried? = some q) (b : Broker) (l : Location) :
    ((b.deliveries l q).outgoing.map Prod.fst).Nodup ∧
      ∀ m ∈ (b.deliveries l q).outgoing, ∃ q', p.carried? = some q' ∧ m.2 = .publish q' := by
  have hclients : (b.deliveries l q).outgoing.map Prod.fst = b.subscribers l q := by
    simp [deliveries, Function.comp_def]
  refine ⟨?_, fun m hm => ⟨q, h, mem_deliveries hm⟩⟩
  rw [hclients]
  refine (b.pairwise_subscribers l q).imp fun {c c'} hlt heq => ?_
  rw [heq] at hlt
  exact List.lt_irrefl _ hlt

theorem publishFrom_replied (b : Broker) (c : String) (l : Location) (q : Publication) :
    ∃ r, (b.publishFrom c l q).RepliesWith c (.publish q) r ∧ r.Replies (.publish q) := by
  obtain ⟨reason, hout⟩ := b.publishFrom_outgoing c l q
  refine ⟨.pubAck reason, ⟨_, hout, ?_⟩, .inl rfl⟩
  unfold delivered
  split
  · exact deliveries_copies rfl b l
  · exact ⟨List.nodup_nil, List.forall_mem_nil _⟩

theorem publish_replied (b : Broker) (c : String) (q : Publication) :
    ∃ r, (b.publish c q).2.RepliesWith c (.publish q) r ∧ r.Replies (.publish q) := by
  unfold publish
  split
  · exact b.publishFrom_replied c _ q
  · unfold publishUnlocated
    dsimp only
    split
    · exact ⟨_, .of_single rfl, .inl rfl⟩
    · split <;> exact ⟨_, .of_single rfl, .inr ⟨rfl, by simp [Payload.kind]⟩⟩

theorem receiveForward_replied (b : Broker) (peer : String) (q : Publication)
    (l : Option Location) :
    ∃ r, (b.receiveForward peer q l).RepliesWith peer (.forwardPublish q l) r ∧
      r.Replies (.forwardPublish q l) := by
  cases l with
  | none => exact ⟨_, .of_single rfl, .inl rfl⟩
  | some l =>
    exact ⟨_, ⟨(b.deliveries l q).outgoing, rfl, deliveries_copies rfl b l⟩, .inl rfl⟩

/-- What a broker answers, it answers once and last. -/
theorem handle_replied (b : Broker) (peer : String) (hp : p.ackKind?.isSome) :
    ∃ r, (b.handle peer p).2.RepliesWith peer p r ∧ r.Replies p := by
  cases p with
  | connect l => exact b.connect_replied peer l
  | pingReq l => exact b.ping_replied peer l
  | subscribe t g => exact b.subscribe_replied peer t g
  | unsubscribe t => exact b.unsubscribe_replied peer t
  | publish q => exact b.publish_replied peer q
  | forwardPublish q l => exact b.receiveForward_replied peer q l
  | _ => exact nomatch hp

theorem handle_unanswered (b : Broker) (peer : String) (hp : p.ackKind? = none) :
    (b.handle peer p).2 = .empty := by
  cases p with
  | connect | pingReq | subscribe | unsubscribe | publish | forwardPublish => exact nomatch hp
  | _ => rfl

/-- All that is sent because of a payload: copies of the publication in it, and the reply. -/
theorem sent_cases {m : String × Payload} (hm : m ∈ (b.handle peer p).2.outgoing) :
    (∃ q, p.carried? = some q ∧ m.2 = .publish q) ∨ m.1 = peer ∧ m.2.Replies p := by
  have hack : p.ackKind?.isSome := by
    by_contra hnone
    rw [b.handle_unanswered peer (by simpa using hnone)] at hm
    exact nomatch hm
  obtain ⟨r, ⟨copies, hout, -, hcopies⟩, hr⟩ := b.handle_replied peer hack
  rw [hout, List.mem_append, List.mem_singleton] at hm
  rcases hm with hm | rfl
  · exact .inl (hcopies m hm)
  · exact .inr ⟨rfl, hr⟩

/-- One reply per request, at the end, and no forwarding of what was forwarded. In every state, a
broker that gets a payload which is to be acknowledged sends copies of the publication that it
carries, if it carries one, to distinct clients, and then one payload to the sender: the
acknowledgement that belongs to the request, or a disconnect, which only registering, reporting a
location and publishing can lead to. Any other payload makes it send nothing at all. Only a
publication of a client is forwarded, as it is, and to other brokers only. -/
theorem one_reply_at_the_end (b : Broker) (hb : b.atlas.Built) (peer : String) (p : Payload) :
    (∀ k, p.ackKind? = some k → ∃ copies r, (b.handle peer p).2.outgoing = copies ++ [(peer, r)] ∧
      (copies.map Prod.fst).Nodup ∧
      (∀ m ∈ copies, ∃ q, p.carried? = some q ∧ m.2 = .publish q) ∧
      (r.kind = k ∨ r.kind = .disconnect ∧ p.kind ∈ [.connect, .pingReq, .publish])) ∧
    (p.ackKind? = none → (b.handle peer p).2.outgoing = [] ∧ (b.handle peer p).2.forwards = []) ∧
    ∀ m ∈ (b.handle peer p).2.forwards, ∃ q l, p = .publish q ∧ m.2 = .forwardPublish q l ∧
      m.1.id ≠ b.id := by
  refine ⟨fun k hk => ?_, fun hnone => ?_, fun m hm => ?_⟩
  · obtain ⟨r, ⟨copies, hout, hnodup, hcopies⟩, hr⟩ :=
      b.handle_replied peer (Option.isSome_of_eq_some hk)
    refine ⟨copies, r, hout, hnodup, hcopies, hr.imp_left fun hkind => ?_⟩
    exact (Option.some.inj (hk.symm.trans hkind)).symm
  · rw [b.handle_unanswered peer hnone]
    exact ⟨rfl, rfl⟩
  · obtain ⟨q, rfl⟩ := publish_of_forwarded hm
    obtain ⟨⟨l, hl⟩, o, ho, hom⟩ := mem_others_of_forwarded hm
    refine ⟨q, l, rfl, hl, ?_⟩
    rw [← hom]
    exact hb.foreign o ho

/-- The broker of the city, where a car is registered and subscribed to jams. -/
def jamWatch : Broker :=
  ofCity.after
    [⟨"car", .connect (some ⟨52.5, 13.4⟩)⟩, ⟨"car", .subscribe ⟨"jams"⟩ .world⟩]

/-- The car is a subscriber of the jam that it reports: it is sent the report, then one reply, and
the broker of the rest of the world is handed the report. -/
theorem jamWatch_replied :
    let jam : Publication := ⟨⟨"jams"⟩, .world, "A100"⟩
    let d := (jamWatch.handle "car" (.publish jam)).2
    (∃ r, d.outgoing = [("car", .publish jam), ("car", r)] ∧ r.kind = .pubAck) ∧
    ∃ target l, d.forwards = [(target, .forwardPublish jam l)] ∧ target.id ≠ jamWatch.id := by
  intro jam d
  have H : Chartable cityAndRoot := ⟨by decide, by decide⟩
  have hbuilt : jamWatch.atlas.Built := by
    rw [jamWatch, atlas_after]
    exact .ofAreas (H.ofAreas_eq (a := cityAndRoot[0]) (by simp [cityAndRoot]))
  have hkinds : d.outgoing.map (fun m => (m.1, m.2.kind)) =
      [("car", .publish)] ++ [("car", .pubAck)] := by decide +kernel
  have hlength : d.forwards.length = 1 := by decide +kernel
  obtain ⟨hreply, -, hforwards⟩ := one_reply_at_the_end jamWatch hbuilt "car" (.publish jam)
  obtain ⟨copies, r, hout, -, hcopies, -⟩ := hreply .pubAck rfl
  refine ⟨⟨r, ?_⟩, ?_⟩
  · rw [hout, List.map_append] at hkinds
    obtain ⟨hcar, hr⟩ := List.append_inj' hkinds rfl
    obtain ⟨m, rfl, hm⟩ := List.map_eq_singleton_iff.1 hcar
    obtain ⟨q, hq, hmq⟩ := hcopies m (List.mem_singleton.2 rfl)
    cases hq
    refine ⟨?_, (Prod.mk.inj (List.singleton_inj.1 hr)).2⟩
    rw [hout, ← hmq, ← (Prod.mk.inj hm).1]
    rfl
  · obtain ⟨m, hm⟩ := List.length_eq_one_iff.1 hlength
    obtain ⟨q, l, hq, hml, hid⟩ := hforwards m (by rw [hm]; exact List.mem_singleton.2 rfl)
    cases hq
    exact ⟨m.1, l, by rw [hm, ← hml], hid⟩

end Broker

end Geocast
