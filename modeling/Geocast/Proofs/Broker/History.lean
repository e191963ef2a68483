import Geocast.Proofs.Broker.Answer
import Geocast.Proofs.Broker.Matching
import Geocast.Proofs.Broker.Responsibility

/-! # Deliveries and the messages before them

Who gets a publication is decided by the records of a broker, and these go back to messages: each
subscription in a record to the grant of a request, the location to the acknowledgement of a report,
with nothing since then that would have undone it. `Documented` says so of one record. The payloads
of others leave it true (`Documented.next`), and so does every answer to the client itself
(`Documented.served`), so it holds after every run (`documented_after`). -/

namespace Geocast

/-- A payload that a broker processed, and what it had sent in return. -/
structure Exchange where
  frame : Frame
  dispatch : Dispatch

namespace Exchange

/-- The client `c` requests `p` and is answered `r`. -/
def Answers (e : Exchange) (c : String) (p r : Payload) : Prop :=
  e.frame = ⟨c, p⟩ ∧ (c, r) ∈ e.dispatch.outgoing

/-- The client `c` is granted a subscription. -/
def Grants (e : Exchange) (c : String) (t : Topic) (g : Geofence) : Prop :=
  e.Answers c (.subscribe t g) (.subAck .grantedQoS0)

/-- The client `c` loses a subscription on the topic, if it has one: it is sent a disconnect or
sends one, its subscription is removed, or another takes its place. -/
def Ends (e : Exchange) (c : String) (t : Topic) : Prop :=
  (∃ reason broker, (c, .disconnect reason broker) ∈ e.dispatch.outgoing) ∨
  (∃ reason broker, e.frame = ⟨c, .disconnect reason broker⟩) ∨
  e.Answers c (.unsubscribe t) (.unsubAck .success) ∨ ∃ g, e.Grants c t g

/-- The client `c` reports a location, which is accepted. -/
def Locates (e : Exchange) (c : String) (l : Option Location) : Prop :=
  e.Answers c (.connect l) (.connAck .success) ∨
  e.Answers c (.pingReq l) (.pingResp .locationUpdated)

end Exchange

/-- Something in the past was `P`, and nothing after it was `Q`. -/
def Since (P Q : Exchange → Prop) (past : List Exchange) : Prop :=
  ∃ before e after, past = before ++ e :: after ∧ P e ∧ ∀ e' ∈ after, ¬ Q e'

namespace Since

variable {P Q : Exchange → Prop} {past : List Exchange} {e : Exchange}

theorem now (h : P e) : Since P Q (past ++ [e]) := ⟨past, e, [], rfl, h, nofun⟩

theorem next (H : Since P Q past) (h : ¬ Q e) : Since P Q (past ++ [e]) := by
  obtain ⟨before, e₀, after, rfl, h₀, hafter⟩ := H
  refine ⟨before, e₀, after ++ [e], by simp, h₀, fun e' he' => ?_⟩
  rcases List.mem_append.1 he' with he' | he'
  · exact hafter e' he'
  · exact List.mem_singleton.1 he' ▸ h

end Since

/-- What a record of the client `c` says goes back to messages in the past. -/
structure Documented (past : List Exchange) (c : String) (record : ClientRecord) : Prop where
  subscription : ∀ {t s}, record.subscriptions.get? t = some s →
    Since (·.Grants c t s.geofence) (·.Ends c t) past
  location : Since (·.Locates c record.location) (fun e => ∃ l, e.Locates c l) past

variable {past : List Exchange} {e : Exchange} {c : String} {p r : Payload} {t : Topic}
  {record : ClientRecord}

theorem Documented.next (H : Documented past c record) (hends : ∀ t, ¬ e.Ends c t)
    (hlocates : ∀ l, ¬ e.Locates c l) : Documented (past ++ [e]) c record where
  subscription h := (H.subscription h).next (hends _)
  location := H.location.next fun ⟨l, hl⟩ => hlocates l hl

/-! ## An exchange with the client -/

section
variable (he : e.frame = ⟨c, p⟩) (hr : e.dispatch.repliesTo c = [r])
include he hr

theorem Exchange.answers_iff {q a : Payload} (ha : a.kind ≠ .publish) :
    e.Answers c q a ↔ p = q ∧ r = a := by
  rw [Answers, ← Dispatch.mem_repliesTo ha, hr, he, List.mem_singleton, Frame.mk.injEq,
    eq_comm (a := a)]
  simp only [true_and]

theorem Exchange.ends_iff : e.Ends c t ↔
    (∃ reason broker, r = .disconnect reason broker) ∨
    (∃ reason broker, p = .disconnect reason broker) ∨
    (p = .unsubscribe t ∧ r = .unsubAck .success) ∨
    ∃ g, p = .subscribe t g ∧ r = .subAck .grantedQoS0 := by
  have hsent (reason broker) : (c, .disconnect reason broker) ∈ e.dispatch.outgoing ↔
      r = .disconnect reason broker := by
    rw [← Dispatch.mem_repliesTo (q := .disconnect reason broker) nofun, hr, List.mem_singleton,
      eq_comm]
  simp only [Ends, Grants, hsent, he, Frame.mk.injEq, true_and,
    answers_iff he hr (a := .unsubAck .success) nofun,
    answers_iff he hr (a := .subAck .grantedQoS0) nofun]

theorem Exchange.locates_iff {l : Option Location} : e.Locates c l ↔
    (p = .connect l ∧ r = .connAck .success) ∨
    (p = .pingReq l ∧ r = .pingResp .locationUpdated) := by
  rw [Locates, answers_iff he hr (a := .connAck .success) nofun,
    answers_iff he hr (a := .pingResp .locationUpdated) nofun]

/-- The record that an answer leaves goes back to messages if the record before it did. -/
theorem Documented.served {old new : Option ClientRecord} (h : Served old p r new)
    (hold : ∀ record ∈ old, Documented past c record) :
    ∀ record ∈ new, Documented (past ++ [e]) c record := by
  have hends {t} := Exchange.ends_iff (t := t) he hr
  have hlocates {l} := Exchange.locates_iff (l := l) he hr
  cases h with
  | welcomed l =>
    rintro _ ⟨⟩
    refine ⟨fun h => ?_, .now (hlocates.2 (.inl ⟨rfl, rfl⟩))⟩
    cases h
  | refused | redirected | stranger | ungranted => rintro _ ⟨⟩
  | relocated record l =>
    rintro _ ⟨⟩
    refine ⟨fun h => ((hold record rfl).subscription h).next ?_,
      .now (hlocates.2 (.inr ⟨rfl, rfl⟩))⟩
    simp [hends]
  | granted record t s =>
    rintro _ ⟨⟩
    refine ⟨fun {t' s'} h => ?_, (hold record rfl).location.next (by simp [hlocates])⟩
    rw [Table.get?_insert] at h
    split at h
    · next ht =>
      cases h
      subst ht
      exact .now ((Exchange.answers_iff he hr (by decide)).2 ⟨rfl, rfl⟩)
    · next ht => exact ((hold record rfl).subscription h).next (by simp [hends, ht])
  | removed record t =>
    rintro _ ⟨⟩
    refine ⟨fun {t' s'} h => ?_, (hold record rfl).location.next (by simp [hlocates])⟩
    rw [Table.get?_erase, Option.ite_none_left_eq_some] at h
    exact ((hold record rfl).subscription h.2).next (by simp [hends, h.1])
  | absent | acknowledged =>
    exact fun record hrecord => (hold record hrecord).next (by simp [hends]) (by simp [hlocates])

end

namespace Broker

variable {b : Broker} {y : String}

/-- A broker processes one payload. -/
def exchange (b : Broker) (f : Frame) : Exchange := ⟨f, (b.handle f.sender f.payload).2⟩

/-- The exchanges while a broker processes payloads one after another. -/
def exchanges (b : Broker) : List Frame → List Exchange
  | [] => []
  | f :: fs => b.exchange f :: (b.handle f.sender f.payload).1.exchanges fs

theorem after_snoc (b : Broker) (fs : List Frame) (f : Frame) :
    b.after (fs ++ [f]) = ((b.after fs).handle f.sender f.payload).1 := by
  simp [after]

theorem exchanges_snoc (b : Broker) (fs : List Frame) (f : Frame) :
    b.exchanges (fs ++ [f]) = b.exchanges fs ++ [(b.after fs).exchange f] := by
  induction fs generalizing b with
  | nil => rfl
  | cons f' fs ih => rw [List.cons_append, exchanges, ih]; rfl

/-! ## Other exchanges -/

/-- An exchange with another client neither ends a subscription nor reports a location. -/
theorem exchange_other {f : Frame} (hne : f.sender ≠ y) :
    (∀ t, ¬ (b.exchange f).Ends y t) ∧ ∀ l, ¬ (b.exchange f).Locates y l := by
  have hframe {p} : (b.exchange f).frame ≠ ⟨y, p⟩ := fun h => hne (congrArg Frame.sender h)
  have hsent {reason broker} :
      (y, .disconnect reason broker) ∉ (b.exchange f).dispatch.outgoing := by
    rw [← Dispatch.mem_repliesTo (q := .disconnect reason broker) nofun, exchange,
      b.repliesTo_other hne]
    exact List.not_mem_nil
  simp [Exchange.Ends, Exchange.Locates, Exchange.Grants, Exchange.Answers, hframe, hsent]

/-- What is neither a request nor a disconnect leaves the broker as it is, and nobody is sent a
disconnect. -/
theorem exchange_idle {f : Frame} (hreq : ¬ f.payload.IsRequest)
    (hdis : ∀ reason broker, f.payload ≠ .disconnect reason broker) :
    (b.handle f.sender f.payload).1 = b ∧
    (∀ t, ¬ (b.exchange f).Ends y t) ∧ ∀ l, ¬ (b.exchange f).Locates y l := by
  obtain ⟨x, p⟩ := f
  have hsent {reason broker} : (y, .disconnect reason broker) ∉ (b.handle x p).2.outgoing := by
    intro hm
    rcases sent_cases hm with ⟨q, -, hq⟩ | ⟨-, hr⟩
    · exact nomatch hq
    · exact hreq hr.isRequest
  cases p with
  | connect | pingReq | subscribe | unsubscribe | publish => exact absurd trivial hreq
  | disconnect => exact absurd rfl (hdis _ _)
  | _ =>
    refine ⟨rfl, ?_⟩
    simp [Exchange.Ends, Exchange.Locates, Exchange.Grants, Exchange.Answers, exchange, hsent]

/-- After every run that began without clients, the records go back to messages. -/
theorem documented_after (atlas : Atlas) (policy : ForwardingPolicy) (frames : List Frame) :
    ∀ c, ∀ record ∈ ((start atlas policy).after frames).record? c,
      Documented ((start atlas policy).exchanges frames) c record := by
  induction frames using List.reverseRecOn with
  | nil => rintro c record ⟨⟩
  | append_singleton fs f ih =>
    intro y record hrecord
    rw [after_snoc] at hrecord
    rw [exchanges_snoc]
    generalize (start atlas policy).after fs = b at *
    by_cases hy : f.sender = y
    · subst hy
      by_cases hreq : f.payload.IsRequest
      · obtain ⟨r, hr, hserved⟩ := b.handle_answered f.sender hreq
        exact Documented.served rfl hr hserved (ih _) record hrecord
      · by_cases hdis : ∃ reason broker, f.payload = .disconnect reason broker
        · -- the sender is gone
          obtain ⟨reason, broker, hdis⟩ := hdis
          rw [hdis, handle, Option.mem_def, evict_record?, if_pos rfl] at hrecord
          cases hrecord
        · obtain ⟨hsame, hends, hlocates⟩ := b.exchange_idle hreq fun reason broker h =>
            hdis ⟨reason, broker, h⟩
          rw [hsame] at hrecord
          exact (ih _ record hrecord).next hends hlocates
    · rw [(b.handle_change ..).record?_other hy] at hrecord
      exact (ih y record hrecord).next (exchange_other hy).1 (exchange_other hy).2

/-! ## Deliveries -/

theorem of_mem_deliveries {l : Location} {q q' : Publication}
    (hm : (y, .publish q') ∈ (b.deliveries l q).outgoing) : q = q' ∧ y ∈ b.subscribers l q := by
  obtain ⟨x, hx, h⟩ := List.mem_map.1 hm
  cases h
  exact ⟨rfl, hx⟩

theorem mem_deliveries_of_delivered {l : Location} {q : Publication} {m : String × Payload}
    (hm : m ∈ (b.delivered l q).outgoing) : m ∈ (b.deliveries l q).outgoing := by
  unfold delivered at hm
  split at hm
  · exact hm
  · exact nomatch hm

/-- A broker sends publications to their subscribers only: when a client whose location it knows
publishes one, or when another broker forwards one with the location of its publisher. -/
theorem mem_sent_publish {q : Publication} (h : (y, .publish q) ∈ (b.handle c p).2.outgoing) :
    ∃ l, (p = .publish q ∧ b.roster.location? c = some l ∨ p = .forwardPublish q (some l)) ∧
      y ∈ b.subscribers l q := by
  have honly {x : String} {r : Payload} (hm : (y, .publish q) ∈ [(x, r)])
      (hr : r.kind ≠ .publish) : False := by
    obtain ⟨-, rfl⟩ := Prod.mk.inj (List.mem_singleton.1 hm)
    exact hr rfl
  by_cases hp : p.IsPersonal
  · rcases b.handle_personal c hp with hd | ⟨r, hd, hr⟩ <;> rw [hd] at h
    · exact absurd h List.not_mem_nil
    · exact (honly h hr).elim
  cases p with
  | connect | disconnect | pingReq | subscribe | unsubscribe => exact absurd trivial hp
  | publish p =>
    cases hl : b.roster.location? c with
    | none =>
      simp only [handle, publish, hl] at h
      obtain ⟨r, hout, hr⟩ := b.publishUnlocated_outgoing c p
      exact (honly (hout ▸ h) hr).elim
    | some l =>
      obtain ⟨reason, hout⟩ := b.publishFrom_outgoing c l p
      rw [handle_publish hl, hout] at h
      rcases List.mem_append.1 h with hm | hm
      · obtain ⟨rfl, hy⟩ := of_mem_deliveries (mem_deliveries_of_delivered hm)
        exact ⟨l, .inl ⟨rfl, rfl⟩, hy⟩
      · exact (honly hm (by rintro ⟨⟩)).elim
  | forwardPublish p l =>
    cases l with
    | none => exact (honly h (by rintro ⟨⟩)).elim
    | some l =>
      rcases List.mem_append.1 h with hm | hm
      · obtain ⟨rfl, hy⟩ := of_mem_deliveries hm
        exact ⟨l, .inr rfl, hy⟩
      · exact (honly hm (by rintro ⟨⟩)).elim
  | _ => exact absurd h List.not_mem_nil

theorem mem_sent_forwarded {l : Location} {q : Publication} (h : y ∈ b.subscribers l q)
    (peer : String) :
    (y, .publish q) ∈ (b.handle peer (.forwardPublish q (some l))).2.outgoing :=
  List.mem_append_left _ (List.mem_map.2 ⟨y, h, rfl⟩)

/-- Every delivery goes back to messages. When a broker that began without clients and processed
`before` sends the client `c` a publication because of `f`, then the publication comes from a
location `l`: that of the client that published it, or the one that it was forwarded with. Some
exchange before granted `c` a subscription on the topic with a geofence that contains `l`, and none
since then ended it; and the last location that `c` reported with success is known and lies in the
geofence of the publication. -/
theorem delivery_documented (atlas : Atlas) (policy : ForwardingPolicy) (before : List Frame)
    (f : Frame) (c : String) (p : Publication)
    (h : (c, .publish p) ∈
      (((start atlas policy).after before).exchange f).dispatch.outgoing) :
    let past := (start atlas policy).exchanges before
    ∃ l, (f.payload = .publish p ∧
        ((start atlas policy).after before).roster.location? f.sender = some l ∨
        f.payload = .forwardPublish p (some l)) ∧
      (∃ g, g.contains l ∧ Since (·.Grants c p.topic g) (·.Ends c p.topic) past) ∧
      ∃ l', p.geofence.contains l' ∧
        Since (·.Locates c (some l')) (fun e => ∃ l'', e.Locates c l'') past := by
  intro past
  obtain ⟨l, hl, hc⟩ := mem_sent_publish h
  obtain ⟨record, hrecord, ⟨s, hs, hg⟩, l', hl', hp⟩ :=
    (mem_subscribers (coherent_after atlas policy before)).1 hc
  have hdocumented := documented_after atlas policy before c record hrecord
  refine ⟨l, hl, ⟨s.geofence, hg, hdocumented.subscription hs⟩, l', hp, ?_⟩
  exact hl' ▸ hdocumented.location

/-- A car in the city changes its subscription and drives on. -/
def carDrives : List Frame :=
  [⟨"car", .connect (some ⟨52.5, 13.4⟩)⟩,
    ⟨"car", .subscribe ⟨"arrivals"⟩ (.rectangle ⟨52, 13⟩ ⟨53, 14⟩)⟩,
    ⟨"car", .subscribe ⟨"arrivals"⟩ .world⟩, ⟨"car", .pingReq (some ⟨52.25, 13.75⟩)⟩]

/-- What a ship at sea publishes reaches the car, which subscribed for it and reported a place in
the city in the past. -/
theorem carDrives_documented :
    let start := start (.view cityAndRoot cityAndRoot[0]) .forwardAll
    let noon : Publication := ⟨⟨"arrivals"⟩, .rectangle ⟨52, 13⟩ ⟨53, 14⟩, "noon"⟩
    let f : Frame := ⟨"cloud", .forwardPublish noon (some ⟨40, -30⟩)⟩
    ("car", .publish noon) ∈ ((start.after carDrives).exchange f).dispatch.outgoing ∧
    (∃ g l, g.contains l ∧
      Since (·.Grants "car" ⟨"arrivals"⟩ g) (·.Ends "car" ⟨"arrivals"⟩)
        (start.exchanges carDrives)) ∧
    ∃ l', noon.geofence.contains l' ∧
      Since (·.Locates "car" (some l')) (fun e => ∃ l'', e.Locates "car" l'')
        (start.exchanges carDrives) := by
  intro start noon f
  have hcar : "car" ∈ (start.after carDrives).subscribers ⟨40, -30⟩ noon := by decide +kernel
  have h : ("car", .publish noon) ∈ ((start.after carDrives).exchange f).dispatch.outgoing :=
    mem_sent_forwarded hcar "cloud"
  obtain ⟨l, -, ⟨g, hg, hsince⟩, hlocated⟩ := delivery_documented _ _ carDrives f "car" noon h
  exact ⟨h, ⟨g, l, hg, hsince⟩, hlocated⟩

end Broker

end Geocast
