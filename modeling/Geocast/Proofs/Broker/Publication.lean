import Geocast.Proofs.Broker.Run

/-! # What a publication makes a broker send

The broker of the publisher delivers a publication to its own clients, forwards it and acknowledges
it to the publisher. It forwards nothing else (`forwards_publications`), and a broker that a
publication is forwarded to does not forward it again (`receiveForward_forwards`). -/

namespace Geocast

/-- What concerns only the client that sends it. -/
def Payload.IsPersonal : Payload → Prop
  | connect _ | disconnect .. | pingReq _ | subscribe .. | unsubscribe _ => True
  | _ => False

namespace Atlas

variable {a : Atlas} {t : BrokerInfo}

theorem mem_others_of_peerFor? {l : Option Location} (h : a.peerFor? l = some t) :
    ∃ o ∈ a.others, o.broker = t := by
  simp only [peerFor?, Option.map_eq_some_iff, Option.or_eq_some_iff,
    Option.bind_eq_some_iff] at h
  obtain ⟨o, ⟨p, -, ho⟩ | ⟨-, ho⟩, ht⟩ := h
  · exact ⟨o, List.mem_of_find?_eq_some ho, ht⟩
  · exact ⟨o, List.mem_of_find?_eq_some ho, ht⟩

theorem mem_others_of_peersWithin {g : Geofence} (h : t ∈ a.peersWithin g) :
    ∃ o ∈ a.others, o.broker = t := by
  obtain ⟨o, ho, ht⟩ := List.mem_map.1 h
  exact ⟨o, (List.mem_filter.1 ho).1, ht⟩

end Atlas

namespace Broker

variable {b : Broker} {c : String} {p : Payload}

/-- What concerns only the sender is answered to the sender, if at all. -/
theorem handle_personal (b : Broker) (c : String) (hp : p.IsPersonal) :
    (b.handle c p).2 = .empty ∨ ∃ r, (b.handle c p).2 = .send c r ∧ r.kind ≠ .publish := by
  cases p with
  | connect l =>
    simp only [handle, connect]
    split
    · split <;> exact .inr ⟨_, rfl, by rintro ⟨⟩⟩
    · exact .inr ⟨_, rfl, by rintro ⟨⟩⟩
  | disconnect => exact .inl rfl
  | pingReq l =>
    simp only [handle, ping]
    split
    · split <;> exact .inr ⟨_, rfl, by rintro ⟨⟩⟩
    · exact .inr ⟨_, rfl, by rintro ⟨⟩⟩
  | subscribe t g =>
    simp only [handle, subscribe]
    split <;> exact .inr ⟨_, rfl, by rintro ⟨⟩⟩
  | unsubscribe t =>
    simp only [handle, unsubscribe]
    split <;> exact .inr ⟨_, rfl, by rintro ⟨⟩⟩
  | _ => exact hp.elim

theorem publishUnlocated_outgoing (b : Broker) (c : String) (p : Publication) :
    ∃ r, (b.publishUnlocated c p).2.outgoing = [(c, r)] ∧ r.kind ≠ .publish := by
  unfold publishUnlocated
  dsimp only
  split
  · exact ⟨_, rfl, nofun⟩
  · split <;> exact ⟨_, rfl, nofun⟩

/-- What a broker delivers itself of a publication that one of its clients made. -/
def delivered (b : Broker) (l : Location) (p : Publication) : Dispatch :=
  if b.atlas.reaches p.geofence then b.deliveries l p else .empty

theorem delivered_forwards (b : Broker) (l : Location) (p : Publication) :
    (b.delivered l p).forwards = [] := by
  unfold delivered
  split <;> rfl

theorem publishFrom_outgoing (b : Broker) (c : String) (l : Location) (p : Publication) :
    ∃ reason, (b.publishFrom c l p).outgoing =
      (b.delivered l p).outgoing ++ [(c, .pubAck reason)] :=
  ⟨_, congrArg (· ++ _) (List.append_nil _)⟩

theorem handle_publish {l : Location} (h : b.roster.location? c = some l) (p : Publication) :
    b.handle c (.publish p) = (b, b.publishFrom c l p) := by
  simp only [handle, publish, h]

theorem publishFrom_forwards (b : Broker) (c : String) (l : Location) (p : Publication) :
    (b.publishFrom c l p).forwards =
      if b.policy ⟨c, p.topic, matchResult (b.delivered l p)⟩ then []
      else (b.atlas.peersWithin p.geofence).map fun o => (o, .forwardPublish p (some l)) := by
  show (b.delivered l p).forwards ++ _ ++ [] = _
  rw [delivered_forwards, List.append_nil]
  rfl

theorem mem_deliveries {l : Location} {q : Publication} {m : String × Payload}
    (hm : m ∈ (b.deliveries l q).outgoing) : m.2 = .publish q := by
  obtain ⟨_, -, rfl⟩ := List.mem_map.1 hm
  rfl

theorem mem_delivered {l : Location} {q : Publication} {m : String × Payload}
    (hm : m ∈ (b.delivered l q).outgoing) : m.2 = .publish q := by
  unfold delivered at hm
  split at hm
  · exact mem_deliveries hm
  · exact nomatch hm

/-! ## What is forwarded -/

/-- A broker answers a forwarded publication, and forwards nothing itself. -/
theorem receiveForward_forwards (b : Broker) (peer : String) (p : Publication)
    (l : Option Location) : (b.receiveForward peer p l).forwards = [] := by
  cases l <;> rfl

theorem mem_others_of_forwarded {m : BrokerInfo × Payload} {q : Publication}
    (hm : m ∈ (b.publish c q).2.forwards) :
    (∃ l, m.2 = .forwardPublish q l) ∧ ∃ o ∈ b.atlas.others, o.broker = m.1 := by
  unfold publish at hm
  split at hm
  · next l _ =>
    rw [publishFrom_forwards] at hm
    split at hm
    · exact nomatch hm
    · obtain ⟨o, ho, rfl⟩ := List.mem_map.1 hm
      exact ⟨⟨some l, rfl⟩, Atlas.mem_others_of_peersWithin ho⟩
  · unfold publishUnlocated at hm
    dsimp only at hm
    split at hm
    · exact nomatch hm
    · split at hm
      · next o ho =>
        obtain rfl := List.mem_singleton.1 hm
        exact ⟨⟨_, rfl⟩, Atlas.mem_others_of_peerFor? ho⟩
      · exact nomatch hm

/-- Only publications that a client makes are forwarded. -/
theorem publish_of_forwarded {m : BrokerInfo × Payload} (hm : m ∈ (b.handle c p).2.forwards) :
    ∃ q, p = .publish q := by
  have hsend {x : String} {r : Payload} : m ∉ (Dispatch.send x r).forwards := List.not_mem_nil
  by_cases hp : p.IsPersonal
  · rcases b.handle_personal c hp with h | ⟨_, h, -⟩ <;> rw [h] at hm
    · exact absurd hm List.not_mem_nil
    · exact absurd hm hsend
  · cases p with
    | publish q => exact ⟨q, rfl⟩
    | forwardPublish q l =>
      rw [handle, receiveForward_forwards] at hm
      exact absurd hm List.not_mem_nil
    | connect | disconnect | pingReq | subscribe | unsubscribe => exact absurd trivial hp
    | _ => exact absurd hm List.not_mem_nil

/-- All that a broker forwards are publications. -/
theorem forwards_publications {m : BrokerInfo × Payload} (hm : m ∈ (b.handle c p).2.forwards) :
    ∃ q l, m.2 = .forwardPublish q l := by
  obtain ⟨q, rfl⟩ := publish_of_forwarded hm
  obtain ⟨⟨l, hl⟩, -⟩ := mem_others_of_forwarded hm
  exact ⟨q, l, hl⟩

@[simp] theorem handle_id (b : Broker) (c : String) (p : Payload) : (b.handle c p).1.id = b.id := by
  rw [id, (b.handle_change c p).atlas, id]

end Broker

end Geocast
