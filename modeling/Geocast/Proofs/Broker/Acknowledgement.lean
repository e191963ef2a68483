import Geocast.Proofs.Broker.Interleaving
import Geocast.Proofs.Broker.Reply

/-! # What a reply tells of the change

A client acts on the codes that it is answered with, so a code has to tell what became of the
client at the broker. `Becomes` says what can change at all: the record of the client, and with it
what the index holds of the client. Which record it becomes goes by the request and the reply
(`Served`), which reply is given by the location and the old record (`Account.serve`), and without
one of the replies that tell of a change nothing changes (`unchanged_of_untold`). -/

namespace Geocast

/-- The replies that tell a client of a change. All others refuse a request, or acknowledge a
publication. -/
def Payload.TellsChange : Payload → Prop
  | connAck .success | pingResp .locationUpdated | subAck .grantedQoS0 | unsubAck .success
  | disconnect .. => True
  | _ => False

@[simp] theorem Dispatch.send_inj {c : String} {r r' : Payload} :
    Dispatch.send c r = .send c r' ↔ r = r' := by
  simp [send]

namespace Broker

variable {b b' : Broker} {c : String} {p r : Payload} {new : Option ClientRecord}

/-- From `b` to `b'` the record of the client `c` became `new`, and the entries of the client in the
index became those of that record. Records and entries of all others stay as they are. -/
structure Becomes (b : Broker) (c : String) (new : Option ClientRecord) (b' : Broker) : Prop where
  records : ∀ y, b'.record? y = if c = y then new else b.record? y
  entries : ∀ i t g, b'.index.get? i t = some g ↔
    if c = i.clientId then ∃ record ∈ new, record.subscriptions.get? t = some ⟨i, t, g⟩
    else b.index.get? i t = some g

/-- The index holds what is in the record of the client that an id names. -/
theorem Coherent.get?_index (H : Coherent b) {i : SubscriptionId} {t : Topic} {g : Geofence} :
    b.index.get? i t = some g ↔
      ∃ record ∈ b.record? i.clientId, record.subscriptions.get? t = some ⟨i, t, g⟩ := by
  have hrecord {y} : b.roster.subscription? y t = some ⟨i, t, g⟩ ↔
      ∃ record ∈ b.record? y, record.subscriptions.get? t = some ⟨i, t, g⟩ :=
    Option.bind_eq_some_iff
  rw [H.filed, ← hrecord]
  constructor
  · rintro ⟨y, hy⟩
    obtain rfl : i.clientId = y := H.owner hy
    exact hy
  · exact fun h => ⟨i.clientId, h⟩

/-- A payload changes the sender's record, and the index along with it. -/
theorem Coherent.becomes (H : Coherent b) (c : String) (p : Payload)
    (h : (b.handle c p).1.record? c = new) : b.Becomes c new (b.handle c p).1 := by
  have H' : Coherent (b.handle c p).1 := H.change (b.handle_change c p)
  have hrecords (y : String) :
      (b.handle c p).1.record? y = if c = y then new else b.record? y := by
    split
    · next hy => exact hy ▸ h
    · next hy => exact (b.handle_change c p).record?_other hy
  refine ⟨hrecords, fun i t g => ?_⟩
  rw [H'.get?_index, hrecords]
  split
  · rfl
  · exact H.get?_index.symm

/-! ## Which reply is given -/

theorem handle_sends (b : Broker) (hp : p.IsPersonal)
    (h : (Account.serve b.atlas (b.account? c) p).2 = [r]) : (b.handle c p).2 = .send c r := by
  have hsent := congrArg Prod.snd (b.handle_serve c hp)
  rw [h] at hsent
  rcases b.handle_personal c hp with hd | ⟨r', hd, -⟩ <;> rw [hd] at hsent ⊢
  · exact nomatch hsent
  · rw [sentTo_send] at hsent
    rw [List.singleton_inj.1 hsent]

theorem connect_sends (b : Broker) (c : String) (l : Option Location) :
    (b.handle c (.connect l)).2 = .send c (if b.atlas.isResponsibleFor l then
      if b.record? c = none then .connAck .success else .disconnect .protocolError none
      else .disconnect .wrongBroker (b.atlas.peerFor? l)) := by
  refine b.handle_sends trivial ?_
  simp only [Account.serve, account?]
  cases b.record? c <;> split <;> rfl

theorem ping_sends (b : Broker) (c : String) (l : Option Location) :
    (b.handle c (.pingReq l)).2 = .send c (if b.atlas.isResponsibleFor l then
      if b.record? c = none then .pingResp .notConnectedOrNoLocation else .pingResp .locationUpdated
      else .disconnect .wrongBroker (b.atlas.peerFor? l)) := by
  refine b.handle_sends trivial ?_
  simp only [Account.serve, account?]
  cases b.record? c <;> split <;> rfl

theorem subscribe_sends (b : Broker) (c : String) (t : Topic) (g : Geofence) :
    (b.handle c (.subscribe t g)).2 = .send c
      (if b.record? c = none then .subAck .notConnectedOrNoLocation else .subAck .grantedQoS0) := by
  refine b.handle_sends trivial ?_
  simp only [Account.serve, account?]
  cases b.record? c <;> rfl

theorem unsubscribe_sends (b : Broker) (c : String) (t : Topic) :
    (b.handle c (.unsubscribe t)).2 = .send c (if b.roster.subscription? c t = none then
      .unsubAck .noSubscriptionExisted else .unsubAck .success) := by
  refine b.handle_sends trivial ?_
  simp only [Account.serve, geofence?_account]
  cases b.roster.subscription? c t <;> rfl

/-! ## Which change it tells of -/

/-- A reply that leaves no choice for the record tells what the client has become. -/
theorem Coherent.becomes_of_served (H : Coherent b) (hp : p.IsRequest)
    (hr : (c, r) ∈ (b.handle c p).2.outgoing) (hkind : r.kind ≠ .publish)
    (h : ∀ record, Served (b.record? c) p r record → record = new) :
    b.Becomes c new (b.handle c p).1 := by
  obtain ⟨r', hr', hserved⟩ := b.handle_answered c hp
  have hmem := (Dispatch.mem_repliesTo hkind).2 hr
  rw [hr', List.mem_singleton] at hmem
  subst hmem
  exact H.becomes c p (h _ hserved)

/-- Who is sent a disconnect is the one who asked, and is forgotten. -/
theorem Coherent.becomes_of_disconnect (H : Coherent b) {y : String} {reason : ReasonCode}
    {target : Option BrokerInfo} (h : (y, .disconnect reason target) ∈ (b.handle c p).2.outgoing) :
    y = c ∧ b.Becomes c none (b.handle c p).1 := by
  rcases sent_cases h with ⟨q, -, hq⟩ | ⟨rfl, hr⟩
  · exact nomatch hq
  · exact ⟨rfl, H.becomes_of_served hr.isRequest h nofun fun _ hserved => hserved.of_disconnect⟩

theorem record?_subscribe {record : ClientRecord} (h : b.record? c = some record) (t : Topic)
    (g : Geofence) : (b.handle c (.subscribe t g)).1.record? c = some { record with
      subscriptions := record.subscriptions.insert t ⟨⟨c, b.roster.lastSeq + 1⟩, t, g⟩ } := by
  have hgranted := Roster.subscribe?_eq_some (t := t) (g := g).2
    ⟨Option.isSome_of_eq_some h, rfl, rfl⟩
  simp only [handle, subscribe, hgranted, record?, Table.get?_modify, if_true]
  rw [show b.roster.clients.get? c = some record from h, Option.map_some]

/-- Without a reply that tells of a change, and unless the client says goodbye, nothing changes. -/
theorem unchanged_of_untold (hp : p.kind ≠ .disconnect)
    (h : ∀ r, (c, r) ∈ (b.handle c p).2.outgoing → ¬ r.TellsChange) : (b.handle c p).1 = b := by
  have hsend {r : Payload} (h : ∀ r', (c, r') ∈ (Dispatch.send c r).outgoing → ¬ r'.TellsChange)
      (hr : r.TellsChange) : False := h r (List.mem_singleton.2 rfl) hr
  revert h
  cases p with
  | connect l =>
    simp only [handle, connect]
    split
    · split <;> exact fun h => (hsend h trivial).elim
    · exact fun h => (hsend h trivial).elim
  | disconnect => exact absurd rfl hp
  | pingReq l =>
    simp only [handle, ping]
    split
    · split
      · exact fun h => (hsend h trivial).elim
      · exact fun _ => rfl
    · exact fun h => (hsend h trivial).elim
  | subscribe t g =>
    simp only [handle, subscribe]
    split
    · exact fun h => (hsend h trivial).elim
    · exact fun _ => rfl
  | unsubscribe t =>
    simp only [handle, unsubscribe]
    split
    · exact fun h => (hsend h trivial).elim
    · exact fun _ => rfl
  | publish q =>
    simp only [handle, publish]
    split
    · exact fun _ => rfl
    · simp only [publishUnlocated]
      split
      · exact fun _ => rfl
      · split <;> exact fun h => (h _ (List.mem_singleton.2 rfl) trivial).elim
  | _ => exact fun _ => rfl

/-! ## Request by request -/

namespace Coherent

variable (H : Coherent b) (c : String)
include H

/-- Only one record can follow a reply that came back alone. -/
theorem becomes_of_sent (hp : p.IsRequest) (hr : (b.handle c p).2 = .send c r)
    (hkind : r.kind ≠ .publish) (h : ∀ record, Served (b.record? c) p r record → record = new) :
    b.Becomes c new (b.handle c p).1 :=
  H.becomes_of_served hp (hr ▸ List.mem_singleton.2 rfl) hkind h

theorem connect_tells (l : Option Location) :
    ((b.handle c (.connect l)).2 = .send c (.connAck .success) ↔
      b.atlas.isResponsibleFor l ∧ b.record? c = none) ∧
    ((b.handle c (.connect l)).2 = .send c (.disconnect .protocolError none) ↔
      b.atlas.isResponsibleFor l ∧ ∃ record, b.record? c = some record) ∧
    ((∃ target, (b.handle c (.connect l)).2 = .send c (.disconnect .wrongBroker target)) ↔
      ¬ b.atlas.isResponsibleFor l) ∧
    ((b.handle c (.connect l)).2 = .send c (.connAck .success) →
      b.Becomes c (some ⟨l, ∅⟩) (b.handle c (.connect l)).1) := by
  refine ⟨?_, ?_, ?_, fun h => H.becomes_of_sent c trivial h nofun fun _ hserved => ?_⟩
  case refine_4 =>
    generalize b.record? c = old at hserved
    cases hserved
    rfl
  all_goals
    rw [b.connect_sends c l]
    cases b.atlas.isResponsibleFor l <;> cases b.record? c <;> simp

theorem ping_tells (l : Option Location) :
    ((b.handle c (.pingReq l)).2 = .send c (.pingResp .locationUpdated) ↔
      b.atlas.isResponsibleFor l ∧ ∃ record, b.record? c = some record) ∧
    ∀ record, b.record? c = some record →
      (b.handle c (.pingReq l)).2 = .send c (.pingResp .locationUpdated) →
      b.Becomes c (some { record with location := l }) (b.handle c (.pingReq l)).1 := by
  refine ⟨?_, fun record hrecord h => H.becomes_of_sent c trivial h nofun fun _ hserved => ?_⟩
  · rw [b.ping_sends c l]
    cases b.atlas.isResponsibleFor l <;> cases b.record? c <;> simp
  · rw [hrecord] at hserved
    cases hserved
    rfl

theorem subscribe_tells (t : Topic) (g : Geofence) :
    ((b.handle c (.subscribe t g)).2 = .send c (.subAck .grantedQoS0) ↔
      ∃ record, b.record? c = some record) ∧
    ∀ record, b.record? c = some record → b.Becomes c (some { record with
      subscriptions := record.subscriptions.insert t ⟨⟨c, b.roster.lastSeq + 1⟩, t, g⟩ })
      (b.handle c (.subscribe t g)).1 := by
  refine ⟨?_, fun record hrecord => H.becomes c _ (record?_subscribe hrecord t g)⟩
  rw [b.subscribe_sends c t g]
  cases b.record? c <;> simp

theorem unsubscribe_tells (t : Topic) :
    ((b.handle c (.unsubscribe t)).2 = .send c (.unsubAck .success) ↔
      ∃ record s, b.record? c = some record ∧ record.subscriptions.get? t = some s) ∧
    ∀ record, b.record? c = some record →
      (b.handle c (.unsubscribe t)).2 = .send c (.unsubAck .success) →
      b.Becomes c (some { record with subscriptions := record.subscriptions.erase t })
        (b.handle c (.unsubscribe t)).1 := by
  refine ⟨?_, fun record hrecord h => H.becomes_of_sent c trivial h nofun fun _ hserved => ?_⟩
  · have hheld : b.roster.subscription? c t = (b.record? c).bind (·.subscriptions.get? t) := rfl
    rw [b.unsubscribe_sends c t, hheld]
    cases b.record? c with
    | none => simp
    | some record => cases hs : record.subscriptions.get? t <;> simp [hs]
  · rw [hrecord] at hserved
    cases hserved
    rfl

end Coherent

/-- Replies tell the truth about what changed, in every state that a broker can get into.
Registering succeeds exactly if the broker is responsible and does not know the client, who then has
a record with its location and no subscriptions; it is a protocol error exactly if the broker is
responsible and knows the client, and a redirect exactly if it is not responsible. A location is
updated exactly if the broker is responsible and knows the client, and then only the location
changes. A subscription is granted exactly if the broker knows the client, and then only the one on
the topic changes. Unsubscribing succeeds exactly if there is a subscription, and then only that is
gone. Whoever is sent a disconnect is the one who asked, and like whoever sends one it has neither a
record nor entries in the index afterwards. Any other reply leaves the broker as it is, and the
counter of subscriptions moves for subscriptions only. -/
theorem replies_tell_changes {b : Broker} (hb : b.Reachable) (c : String) :
    let sent (p : Payload) : Dispatch := (b.handle c p).2
    let next (p : Payload) : Broker := (b.handle c p).1
    (∀ l,
      (sent (.connect l) = .send c (.connAck .success) ↔
        b.atlas.isResponsibleFor l ∧ b.record? c = none) ∧
      (sent (.connect l) = .send c (.disconnect .protocolError none) ↔
        b.atlas.isResponsibleFor l ∧ ∃ record, b.record? c = some record) ∧
      ((∃ target, sent (.connect l) = .send c (.disconnect .wrongBroker target)) ↔
        ¬ b.atlas.isResponsibleFor l) ∧
      (sent (.connect l) = .send c (.connAck .success) →
        b.Becomes c (some ⟨l, ∅⟩) (next (.connect l)))) ∧
    (∀ l,
      (sent (.pingReq l) = .send c (.pingResp .locationUpdated) ↔
        b.atlas.isResponsibleFor l ∧ ∃ record, b.record? c = some record) ∧
      ∀ record, b.record? c = some record →
        sent (.pingReq l) = .send c (.pingResp .locationUpdated) →
        b.Becomes c (some { record with location := l }) (next (.pingReq l))) ∧
    (∀ t g,
      (sent (.subscribe t g) = .send c (.subAck .grantedQoS0) ↔
        ∃ record, b.record? c = some record) ∧
      ∀ record, b.record? c = some record → b.Becomes c (some { record with
        subscriptions := record.subscriptions.insert t ⟨⟨c, b.roster.lastSeq + 1⟩, t, g⟩ })
        (next (.subscribe t g))) ∧
    (∀ t,
      (sent (.unsubscribe t) = .send c (.unsubAck .success) ↔
        ∃ record s, b.record? c = some record ∧ record.subscriptions.get? t = some s) ∧
      ∀ record, b.record? c = some record →
        sent (.unsubscribe t) = .send c (.unsubAck .success) →
        b.Becomes c (some { record with subscriptions := record.subscriptions.erase t })
          (next (.unsubscribe t))) ∧
    (∀ p y reason target, (y, .disconnect reason target) ∈ (sent p).outgoing →
      y = c ∧ b.Becomes c none (next p)) ∧
    (∀ reason target, b.Becomes c none (next (.disconnect reason target))) ∧
    (∀ p, p.kind ≠ .disconnect → (∀ r, (c, r) ∈ (sent p).outgoing → ¬ r.TellsChange) →
      next p = b) ∧
    ∀ p, (∀ t g, p ≠ .subscribe t g) → (next p).roster.lastSeq = b.roster.lastSeq := by
  intro sent next
  have H : Coherent b := hb.coherent
  refine ⟨H.connect_tells c, H.ping_tells c, H.subscribe_tells c, H.unsubscribe_tells c,
    fun p y reason target h => H.becomes_of_disconnect h, fun reason target => H.becomes c _ ?_,
    fun p hp h => unchanged_of_untold hp h, fun p hp => ((b.handle_change c p).no_new hp).1⟩
  exact (b.evict_record? c c).trans (if_pos rfl)

/-- When the car drives on in the city, only its location changes. When it reports a place at sea,
it is forgotten. When it gives up a subscription that it does not have, nothing changes. -/
theorem jamWatch_told :
    (∃ record, jamWatch.record? "car" = some record ∧
      jamWatch.Becomes "car" (some { record with location := some ⟨52.25, 13.75⟩ })
        (jamWatch.handle "car" (.pingReq (some ⟨52.25, 13.75⟩))).1) ∧
    jamWatch.Becomes "car" none (jamWatch.handle "car" (.pingReq (some ⟨40, -30⟩))).1 ∧
    (jamWatch.handle "car" (.unsubscribe ⟨"news"⟩)).1 = jamWatch := by
  obtain ⟨-, hping, -, -, hgone, -, hsame, -⟩ :=
    replies_tell_changes (b := jamWatch) ⟨_, _, _, rfl⟩ "car"
  obtain ⟨record, hrecord⟩ := Option.isSome_iff_exists.1
    (show (jamWatch.record? "car").isSome by decide +kernel)
  have hresponsible : jamWatch.atlas.isResponsibleFor (some ⟨52.25, 13.75⟩) := by decide +kernel
  have hupdated := (hping _).1.2 ⟨hresponsible, record, hrecord⟩
  have haway : jamWatch.atlas.isResponsibleFor (some ⟨40, -30⟩) = false := by decide +kernel
  have hsent : ("car", .disconnect .wrongBroker (jamWatch.atlas.peerFor? (some ⟨40, -30⟩))) ∈
      (jamWatch.handle "car" (.pingReq (some ⟨40, -30⟩))).2.outgoing := by
    rw [ping_sends, haway]
    exact List.mem_singleton.2 rfl
  have hnone : jamWatch.roster.subscription? "car" ⟨"news"⟩ = none :=
    Option.isNone_iff_eq_none.1 (by decide +kernel)
  have huntold : ∀ r, ("car", r) ∈ (jamWatch.handle "car" (.unsubscribe ⟨"news"⟩)).2.outgoing →
      ¬ r.TellsChange := by
    rw [unsubscribe_sends, if_pos hnone]
    intro r hr
    obtain ⟨-, rfl⟩ := Prod.mk.inj (List.mem_singleton.1 hr)
    exact not_false
  exact ⟨⟨record, hrecord, (hping _).2 record hrecord hupdated⟩,
    (hgone (.pingReq (some ⟨40, -30⟩)) _ _ _ hsent).2,
    hsame (.unsubscribe ⟨"news"⟩) nofun huntold⟩

end Broker

end Geocast
