import Geocast.Proofs.Broker.Reply

/-! # How a broker answers a client

A request of a client is answered by exactly one payload that is no publication. `Served` lists
the answers, each with what the broker's record of the client was before and is afterwards
(`handle_answered`). Nobody else is sent anything but publications, and no other record changes. -/

namespace Geocast

/-- What a client asks of a broker. -/
def Payload.IsRequest : Payload → Prop
  | connect _ | pingReq _ | subscribe .. | unsubscribe _ | publish _ => True
  | _ => False

/-- Only requests are answered by a disconnect. -/
theorem Payload.Replies.isRequest {reason : ReasonCode} {target : Option BrokerInfo} {p : Payload}
    (h : (disconnect reason target).Replies p) : p.IsRequest := by
  rcases h with h | ⟨-, h⟩
  · cases p <;> cases h
  · cases p <;> first | exact trivial | simp [kind] at h

/-- Everything but publications that a dispatch sends to a peer. -/
def Dispatch.repliesTo (d : Dispatch) (peer : String) : List Payload :=
  (d.sentTo peer).filter (·.kind ≠ .publish)

theorem Dispatch.mem_repliesTo {d : Dispatch} {c : String} {q : Payload} (hq : q.kind ≠ .publish) :
    q ∈ d.repliesTo c ↔ (c, q) ∈ d.outgoing := by
  simp [repliesTo, sentTo, hq]

/-- The record of a client before a request, the request, the answer and the record afterwards. -/
inductive Served : Option ClientRecord → Payload → Payload → Option ClientRecord → Prop
  | welcomed (l : Option Location) : Served none (.connect l) (.connAck .success) (some ⟨l, ∅⟩)
  | refused (record : ClientRecord) (l : Option Location) :
    Served (some record) (.connect l) (.disconnect .protocolError none) none
  | redirected (old : Option ClientRecord) {p : Payload} (target : Option BrokerInfo) :
    p.kind ∈ [.connect, .pingReq, .publish] → Served old p (.disconnect .wrongBroker target) none
  | relocated (record : ClientRecord) (l : Option Location) :
    Served (some record) (.pingReq l) (.pingResp .locationUpdated)
      (some { record with location := l })
  | stranger (l : Option Location) :
    Served none (.pingReq l) (.pingResp .notConnectedOrNoLocation) none
  | granted (record : ClientRecord) (t : Topic) (s : Subscription) :
    Served (some record) (.subscribe t s.geofence) (.subAck .grantedQoS0)
      (some { record with subscriptions := record.subscriptions.insert t s })
  | ungranted (t : Topic) (g : Geofence) :
    Served none (.subscribe t g) (.subAck .notConnectedOrNoLocation) none
  | removed (record : ClientRecord) (t : Topic) :
    Served (some record) (.unsubscribe t) (.unsubAck .success)
      (some { record with subscriptions := record.subscriptions.erase t })
  | absent {old : Option ClientRecord} {t : Topic} : old.bind (·.subscriptions.get? t) = none →
    Served old (.unsubscribe t) (.unsubAck .noSubscriptionExisted) old
  | acknowledged (old : Option ClientRecord) (p : Publication) (reason : ReasonCode) :
    Served old (.publish p) (.pubAck reason) old

/-- A registration is accepted, refused for an id that is in use, or redirected. -/
theorem Served.of_connect {old new : Option ClientRecord} {l : Option Location} {r : Payload}
    (H : Served old (.connect l) r new) : r = .connAck .success ∨
      r = .disconnect .protocolError none ∨
      ∃ target, r = .disconnect .wrongBroker target ∧ new = none := by
  cases H with
  | welcomed => exact .inl rfl
  | refused => exact .inr (.inl rfl)
  | redirected _ target => exact .inr (.inr ⟨target, rfl, rfl⟩)

/-- A client that is sent a disconnect has no record any more. -/
theorem Served.of_disconnect {old new : Option ClientRecord} {p : Payload} {reason : ReasonCode}
    {target : Option BrokerInfo} (H : Served old p (.disconnect reason target) new) :
    new = none := by
  cases H <;> rfl

namespace Broker

variable {b b' : Broker} {c y : String} {p : Payload}

def record? (b : Broker) (c : String) : Option ClientRecord := b.roster.clients.get? c

theorem evict_record? (b : Broker) (c y : String) :
    (b.evict c).record? y = if c = y then none else b.record? y := by
  rcases b.evict_eq c with ⟨hr, h⟩ | ⟨_, _, hr, h⟩
  · simp only [Roster.remove?, Option.map_eq_none_iff] at hr
    rw [h]
    split
    · next hc => exact hc ▸ hr
    · rfl
  · obtain ⟨-, hroster⟩ := Roster.remove?_eq_some.1 hr
    rw [h, hroster]
    exact Table.get?_erase ..

/-! ## The other clients -/

/-- A payload of one client leaves the records of all others alone. -/
theorem Change.record?_other (H : Change b c p b') (hne : c ≠ y) : b'.record? y = b.record? y := by
  cases H with
  | idle => rfl
  | evicted => rw [evict_record?, if_neg hne]
  | added _ h =>
    obtain ⟨-, rfl⟩ := Roster.add?_eq_some.1 h
    exact (Table.get?_insert ..).trans (if_neg hne)
  | relocated _ h =>
    obtain ⟨-, rfl⟩ := Roster.relocate?_eq_some.1 h
    exact (Table.get?_modify ..).trans (if_neg hne)
  | subscribed h =>
    simp only [subscribe, h, record?]
    obtain ⟨-, -, rfl⟩ := Roster.subscribe?_eq_some.1 h
    exact (Table.get?_modify ..).trans (if_neg hne)
  | unsubscribed h =>
    obtain ⟨-, rfl⟩ := Roster.unsubscribe?_eq_some.1 h
    exact (Table.get?_modify ..).trans (if_neg hne)

theorem repliesTo_eq_nil {d : Dispatch} (h : ∀ q, (y, q) ∈ d.outgoing → q.kind = .publish) :
    d.repliesTo y = [] := by
  refine List.filter_eq_nil_iff.2 fun q hq => ?_
  obtain ⟨⟨y', q'⟩, hm, rfl⟩ := List.mem_map.1 hq
  obtain ⟨hsent, hy⟩ := List.mem_filter.1 hm
  obtain rfl : y' = y := by simpa using hy
  simp [h q' hsent]

/-- Who did not send the payload is sent nothing but publications. -/
theorem repliesTo_other (hne : c ≠ y) : (b.handle c p).2.repliesTo y = [] := by
  refine repliesTo_eq_nil fun r hr => ?_
  rcases sent_cases hr with ⟨q, -, hq⟩ | ⟨hy, -⟩
  · exact congrArg Payload.kind hq
  · exact absurd hy.symm hne

/-! ## The client itself -/

theorem repliesTo_send {d : Dispatch} {r : Payload} (out : List (String × Payload))
    (hd : d.outgoing = out ++ [(c, r)]) (hout : ∀ m ∈ out, m.2.kind = .publish)
    (hr : r.kind ≠ .publish) : d.repliesTo c = [r] := by
  have hnone : Dispatch.repliesTo ⟨out, []⟩ c = [] := repliesTo_eq_nil fun q hq => hout _ hq
  simp only [Dispatch.repliesTo, Dispatch.sentTo] at hnone ⊢
  rw [hd, List.filter_append, List.map_append, List.filter_append, hnone]
  simp [hr]

theorem repliesTo_single {d : Dispatch} {r : Payload} (hd : d.outgoing = [(c, r)])
    (hr : r.kind ≠ .publish) : d.repliesTo c = [r] :=
  repliesTo_send [] hd nofun hr

theorem redirect_answered (b : Broker) (c : String) (l : Option Location)
    (hp : p.kind ∈ [.connect, .pingReq, .publish]) :
    Served (b.record? c) p (.disconnect .wrongBroker (b.atlas.peerFor? l))
      ((b.redirect c l).1.record? c) := by
  have hnone : (b.redirect c l).1.record? c = none := (b.evict_record? c c).trans (if_pos rfl)
  rw [hnone]
  exact .redirected _ _ hp

theorem connect_answered (b : Broker) (c : String) (l : Option Location) :
    ∃ r, (b.connect c l).2.repliesTo c = [r] ∧
      Served (b.record? c) (.connect l) r ((b.connect c l).1.record? c) := by
  unfold connect
  split
  · split
    · next h =>
      obtain ⟨hnone, rfl⟩ := Roster.add?_eq_some.1 h
      refine ⟨_, repliesTo_single rfl nofun, ?_⟩
      rw [show b.record? c = none from hnone, record?, Table.get?_insert, if_pos rfl]
      exact .welcomed l
    · next h =>
      refine ⟨_, repliesTo_single rfl nofun, ?_⟩
      rw [evict_record?, if_pos rfl]
      obtain ⟨record, hrecord⟩ := Option.isSome_iff_exists.1 (Roster.add?_eq_none.1 h)
      rw [record?, hrecord]
      exact .refused record l
  · exact ⟨_, repliesTo_single rfl nofun, b.redirect_answered c l (by simp [Payload.kind])⟩

theorem ping_answered (b : Broker) (c : String) (l : Option Location) :
    ∃ r, (b.ping c l).2.repliesTo c = [r] ∧
      Served (b.record? c) (.pingReq l) r ((b.ping c l).1.record? c) := by
  unfold ping
  split
  · split
    · next roster h =>
      obtain ⟨hsome, rfl⟩ := Roster.relocate?_eq_some.1 h
      obtain ⟨record, hrecord⟩ := Option.isSome_iff_exists.1 hsome
      refine ⟨_, repliesTo_single rfl nofun, ?_⟩
      rw [record?, record?, Table.get?_modify, if_pos rfl, hrecord]
      exact .relocated record l
    · next h =>
      refine ⟨_, repliesTo_single rfl nofun, ?_⟩
      rw [record?, Roster.relocate?_eq_none.1 h]
      exact .stranger l
  · exact ⟨_, repliesTo_single rfl (by simp [Payload.kind]),
      b.redirect_answered c l (by simp [Payload.kind])⟩

theorem subscribe_answered (b : Broker) (c : String) (t : Topic) (g : Geofence) :
    ∃ r, (b.subscribe c t g).2.repliesTo c = [r] ∧
      Served (b.record? c) (.subscribe t g) r ((b.subscribe c t g).1.record? c) := by
  unfold subscribe
  split
  · next s roster h =>
    obtain ⟨hsome, rfl, rfl⟩ := Roster.subscribe?_eq_some.1 h
    obtain ⟨record, hrecord⟩ := Option.isSome_iff_exists.1 hsome
    refine ⟨_, repliesTo_single rfl nofun, ?_⟩
    rw [record?, record?, Table.get?_modify, if_pos rfl, hrecord]
    exact .granted record t ⟨_, t, g⟩
  · next h =>
    refine ⟨_, repliesTo_single rfl nofun, ?_⟩
    rw [record?, Roster.subscribe?_eq_none.1 h]
    exact .ungranted t g

theorem unsubscribe_answered (b : Broker) (c : String) (t : Topic) :
    ∃ r, (b.unsubscribe c t).2.repliesTo c = [r] ∧
      Served (b.record? c) (.unsubscribe t) r ((b.unsubscribe c t).1.record? c) := by
  unfold unsubscribe
  split
  · next s roster h =>
    obtain ⟨hheld, rfl⟩ := Roster.unsubscribe?_eq_some.1 h
    obtain ⟨record, hrecord, -⟩ := Option.bind_eq_some_iff.1 hheld
    refine ⟨_, repliesTo_single rfl nofun, ?_⟩
    rw [record?, record?, Table.get?_modify, if_pos rfl, hrecord]
    exact .removed record t
  · next h => exact ⟨_, repliesTo_single rfl nofun, .absent (Option.map_eq_none_iff.1 h)⟩

theorem publish_answered (b : Broker) (c : String) (p : Publication) :
    ∃ r, (b.publish c p).2.repliesTo c = [r] ∧
      Served (b.record? c) (.publish p) r ((b.publish c p).1.record? c) := by
  unfold publish
  split
  · next l _ =>
    obtain ⟨reason, hout⟩ := b.publishFrom_outgoing c l p
    refine ⟨_, repliesTo_send _ hout (fun m hm => congrArg Payload.kind (mem_delivered hm)) nofun,
      ?_⟩
    exact .acknowledged _ p reason
  · unfold publishUnlocated
    dsimp only
    split
    · exact ⟨_, repliesTo_single rfl nofun, .acknowledged _ p _⟩
    · have hredirect := b.redirect_answered c p.geofence.centroid? (p := .publish p)
        (by simp [Payload.kind])
      split <;> exact ⟨_, repliesTo_single rfl (by simp [Payload.kind]), hredirect⟩

/-- The answer to a request. -/
theorem handle_answered (b : Broker) (c : String) (hp : p.IsRequest) :
    ∃ r, (b.handle c p).2.repliesTo c = [r] ∧
      Served (b.record? c) p r ((b.handle c p).1.record? c) := by
  cases p with
  | connect l => exact b.connect_answered c l
  | pingReq l => exact b.ping_answered c l
  | subscribe t g => exact b.subscribe_answered c t g
  | unsubscribe t => exact b.unsubscribe_answered c t
  | publish p => exact b.publish_answered c p
  | _ => exact hp.elim

end Broker

end Geocast
