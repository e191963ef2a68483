import Geocast.Proofs.Federation.Rehoming

/-! # Agreement on subscriptions

A client tracks the subscriptions that its broker granted. `Agreed` says that the broker holds what
the client tracks, or that it sent the client away and has no record of it any more. A request
changes both sides at once, and the answer tells the client how (`Told.agreed`). A client that does
nothing goes on agreeing with its broker, whatever others do (`Agreeing.stands`). -/

namespace Geocast

/-- A broker's record of a client has all subscriptions that the client tracks. -/
def Backs (record : Option ClientRecord) (subscriptions : Table Topic Geofence) : Prop :=
  ∀ t g, subscriptions.get? t = some g →
    ∃ sub, record.bind (·.subscriptions.get? t) = some sub ∧ sub.geofence = g

namespace Backs

variable {record : ClientRecord} {old : Option ClientRecord} {subscriptions : Table Topic Geofence}

theorem empty (record : Option ClientRecord) : Backs record ∅ := nofun

theorem granted (H : Backs (some record) subscriptions) (t : Topic) (sub : Subscription) :
    Backs (some { record with subscriptions := record.subscriptions.insert t sub })
      (subscriptions.insert t sub.geofence) := by
  intro t' g hg
  rw [Table.get?_insert] at hg
  simp only [Option.bind_some, Table.get?_insert]
  split at hg
  · next ht => exact ⟨sub, if_pos ht, Option.some.inj hg⟩
  · next ht =>
    obtain ⟨sub', hsub', hfence⟩ := H t' g hg
    exact ⟨sub', (if_neg ht).trans hsub', hfence⟩

theorem removed (H : Backs (some record) subscriptions) (t : Topic) :
    Backs (some { record with subscriptions := record.subscriptions.erase t })
      (subscriptions.erase t) := by
  intro t' g hg
  rw [Table.get?_erase] at hg
  simp only [Option.bind_some, Table.get?_erase]
  split at hg
  · cases hg
  · next ht =>
    obtain ⟨sub', hsub', hfence⟩ := H t' g hg
    exact ⟨sub', (if_neg ht).trans hsub', hfence⟩

theorem erase (H : Backs old subscriptions) (t : Topic) : Backs old (subscriptions.erase t) := by
  intro t' g hg
  rw [Table.get?_erase] at hg
  split at hg
  · cases hg
  · exact H t' g hg

end Backs

namespace Served

variable {old new : Option ClientRecord} {p r : Payload} {l : Option Location} {t : Topic}
  {g : Geofence} {q : Publication}

/-- A client without a record gets one by registering only. -/
theorem of_none (H : Served old p r new) (hp : p.kind ≠ .connect) (hold : old = none) :
    new = none := by
  cases H with
  | welcomed => exact absurd rfl hp
  | relocated | granted | removed => exact nomatch hold
  | absent | acknowledged => exact hold
  | _ => rfl

theorem of_redirect {target : Option BrokerInfo}
    (H : Served old p (.disconnect .wrongBroker target) new) : new = none := by
  cases H
  rfl

theorem of_subscribe (H : Served old (.subscribe t g) r new) :
    (r = .subAck .grantedQoS0 ∧
      ∀ subscriptions, Backs old subscriptions → Backs new (subscriptions.insert t g)) ∨
    r = .subAck .notConnectedOrNoLocation ∧ new = old := by
  cases H with
  | granted _ _ sub => exact .inl ⟨rfl, fun _ h => h.granted t sub⟩
  | ungranted => exact .inr ⟨rfl, rfl⟩
  | redirected _ _ hp => exact absurd hp (by simp [Payload.kind])

theorem of_unsubscribe (H : Served old (.unsubscribe t) r new) :
    (r = .unsubAck .success ∨ r = .unsubAck .noSubscriptionExisted) ∧
      ∀ subscriptions, Backs old subscriptions → Backs new (subscriptions.erase t) := by
  cases H with
  | removed => exact ⟨.inl rfl, fun _ h => h.removed t⟩
  | absent => exact ⟨.inr rfl, fun _ h => h.erase t⟩
  | redirected _ _ hp => exact absurd hp (by simp [Payload.kind])

theorem of_pingReq (H : Served old (.pingReq l) r new) : r = .pingResp .locationUpdated ∨
    (r = .pingResp .notConnectedOrNoLocation ∧ new = old) ∨
      ∃ target, r = .disconnect .wrongBroker target := by
  cases H with
  | relocated => exact .inl rfl
  | stranger => exact .inr (.inl ⟨rfl, rfl⟩)
  | redirected _ target => exact .inr (.inr ⟨target, rfl⟩)

theorem of_publish (H : Served old (.publish q) r new) :
    (∃ reason, r = .pubAck reason ∧ new = old) ∨ ∃ target, r = .disconnect .wrongBroker target := by
  cases H with
  | acknowledged _ _ reason => exact .inl ⟨reason, rfl, rfl⟩
  | redirected _ target => exact .inr ⟨target, rfl⟩

/-- The answer to a request is one that the request waits for. -/
theorem kind_mem_replies {request : Request} (H : Served old request.payload r new) :
    r.kind ∈ request.replies := by
  cases request with
  | subscribe => rcases H.of_subscribe with ⟨rfl, -⟩ | ⟨rfl, -⟩ <;> exact List.mem_singleton_self _
  | unsubscribe => rcases H.of_unsubscribe with ⟨rfl | rfl, -⟩ <;> exact List.mem_singleton_self _
  | updateLocation =>
    rcases H.of_pingReq with rfl | ⟨rfl, -⟩ | ⟨_, rfl⟩ <;> simp [Request.replies, Payload.kind]
  | publish =>
    rcases H.of_publish with ⟨_, rfl, -⟩ | ⟨_, rfl⟩ <;> simp [Request.replies, Payload.kind]

end Served

theorem Request.payload_isRequest (r : Request) : r.payload.IsRequest := by
  cases r <;> exact trivial

theorem Request.payload_kind_ne_connect (r : Request) : r.payload.kind ≠ .connect := by
  cases r <;> exact nofun

namespace Session

open Federation

variable {V : Surroundings} {o : SessionOptions}
  {s s' : Session Federation.wire} {l : Link Federation.wire}

/-- The client and its broker agree on what it is subscribed to, unless the broker sent the client
away: then it has no record of it. -/
structure Agreed (s : Session Federation.wire) (l : Link Federation.wire) : Prop
    extends Clear s l where
  away : s.SentAway l.number → s.record = none
  backed : ¬ s.SentAway l.number → Backs s.record s.subscriptions

theorem Agreed.of_record (H : Agreed s l) (hclear : s'.Clear l)
    (hsent : s'.SentAway l.number ↔ s.SentAway l.number) (hrecord : s'.record = s.record)
    (hsubscriptions : s'.subscriptions = s.subscriptions) : Agreed s' l where
  toClear := hclear
  away h := hrecord.trans (H.away (hsent.1 h))
  backed h := by
    rw [hrecord, hsubscriptions]
    exact H.backed fun h' => h (hsent.2 h')

/-- The session is where it may call, if it is connected. -/
structure Member (V : Surroundings) (o : SessionOptions) (s : Session Federation.wire) : Prop
    extends Confined V s where
  placed : s.Placed
  called : ∀ l, s.link = some l → V.own s.address s.id
  options : s.options = o

/-- The client agrees with its broker, if it waits for acknowledgements at all. -/
structure Agreeing (V : Surroundings) (o : SessionOptions) (s : Session Federation.wire) : Prop
    extends Member V o s where
  agreed : o.ackTimeout ≠ 0 → ∀ l, s.link = some l → Agreed s l

theorem Member.steady (H : Member V o s) (hc : Confined V s') (h : Steady s s') :
    Member V o s' where
  toConfined := hc
  placed := h.placed H.placed
  called l hl := by
    rw [h.address, h.id]
    exact H.called l (h.link ▸ hl)
  options := h.options.trans H.options

theorem Member.of_closed (H : Member V o s) (h : s.link = none) : Agreeing V o s :=
  ⟨H, fun _ _ hl => nomatch h.symm.trans hl⟩

theorem Member.closed (H : Member V o s) : Agreeing V o s.closed := by
  have hlink (l : Link Federation.wire) : s.closed.link ≠ some l := fun hl =>
    nomatch (closed_link s).symm.trans hl
  exact Member.of_closed ⟨H.toConfined.closed, fun l hl => absurd hl (hlink l),
    fun l hl => absurd hl (hlink l), (closed_options s).trans H.options⟩ (closed_link s)

theorem Member.agreeing (H : Member V o s) (hl : s.link = some l) (h : Agreed s l) :
    Agreeing V o s :=
  ⟨H, fun _ _ hl' => Option.some.inj (hl.symm.trans hl') ▸ h⟩

/-- What the client notes for itself. -/
theorem Member.noted (H : Member V o s) (location : Option Location)
    (subscriptions : Table Topic Geofence) :
    Member V o { s with location := location, subscriptions := subscriptions } :=
  ⟨⟨H.charted, H.outsiders, H.unmoved, H.owned, H.numbered, H.bounded⟩, H.placed, H.called,
    H.options⟩

/-- A client that is as it was before, and whose registration stands, goes on agreeing with its
broker, whatever else happened to the federation. -/
theorem Agreeing.stands (H : Agreeing V o s) (h : RolledBack s s')
    (hstands : ∀ l, s.link = some l → Unmoved s.wire s'.wire s.address s.id)
    (hcharted : Charted V.areas s'.wire) {before : Federation}
    (hunmoved : ∀ A y, V.others A y → Unmoved before s'.wire A y)
    (hbounded : ∀ e ∈ s'.history, ∀ n, e.channel? = some n → n < s'.opened) :
    Agreeing { V with before := before } o s' := by
  have hown {l : Link Federation.wire} (hl : s.link = some l) :
      connection? s.wire s.address s.id = some l.channel.number := by
    obtain ⟨haddress, hid⟩ := H.placed l hl
    rw [← haddress, ← hid]
    exact (H.owned l hl).2
  have howned : ∀ l, s'.link = some l → ¬ V.others l.channel.address l.channel.clientId ∧
      connection? s'.wire l.channel.address l.channel.clientId = some l.channel.number := by
    intro l hl
    rw [h.link] at hl
    obtain ⟨haddress, hid⟩ := H.placed l hl
    refine ⟨(H.owned l hl).1, ?_⟩
    rw [haddress, hid]
    exact (hstands l hl).connection.trans (hown hl)
  have hcalled : ∀ l, s'.link = some l → V.own s'.address s'.id := fun l hl => by
    rw [h.address, h.id]
    exact H.called l (h.link ▸ hl)
  refine ⟨⟨⟨hcharted, H.outsiders, hunmoved, howned, h.numbered H.numbered, hbounded⟩,
    h.toSteady.placed H.placed, hcalled, h.options.trans H.options⟩, fun hack l hl => ?_⟩
  rw [h.link] at hl
  have hagreed := H.agreed hack l hl
  obtain ⟨events, hhistory, hledger⟩ := h.events
  refine hagreed.of_record ⟨h.inbox ▸ hagreed.parked, ?_⟩ ?_ ?_ h.subscriptions
  · exact ((hstands l hl).replies _ (hown hl)).trans hagreed.underWay
  · refine exists_congr fun target => ?_
    rw [hhistory, List.mem_append]
    exact or_iff_right fun hm => RolledBack.channel?_ne hl H.numbered hledger _ hm rfl
  · rw [record, record, h.address, h.id]
    exact (hstands l hl).record

/-! ## Requests -/

/-- The answer to a request finds the client and its broker in agreement if it finds the client
noting the right subscriptions. -/
theorem Told.agreed {p r : Payload} (h : Told s s' l p r) (H : Agreed s l)
    (hp : p.kind ≠ .connect) (location : Option Location) {subscriptions : Table Topic Geofence}
    (hbacks : (∀ target, r ≠ .disconnect .wrongBroker target) → Backs s.record s.subscriptions →
      Backs s'.record subscriptions) :
    Agreed { s' with location := location, subscriptions := subscriptions } l where
  parked := h.parked
  underWay := h.underWay
  away hsent := by
    rcases (h.sentAway l.number).1 hsent with hsent | ⟨-, target, rfl⟩
    · exact h.answered.of_none hp (H.away hsent)
    · exact h.answered.of_redirect
  backed hsent := by
    refine hbacks (fun target hr => hsent ?_) (H.backed fun hs => hsent ?_)
    · exact (h.sentAway l.number).2 (.inr ⟨rfl, target, hr⟩)
    · exact (h.sentAway l.number).2 (.inl hs)

theorem ask_confined (H : Confined V s) (r : Request) : Ends s r.ask
    (fun _ s' => Confined V s' ∧ Steady s s') fun _ s' => Confined V s' ∧ Steady s s' := by
  simp only [Request.ask, ends_bind, ends_get]
  refine (send_confined H r.payload).mono ?_ fun _ _ h => h
  rintro _ s₁ ⟨H₁, h₁⟩
  exact (await_confined H₁ _ _ _).mono (fun _ _ h => ⟨h.1, h₁.trans h.2⟩)
    fun _ _ h => ⟨h.1, h₁.trans h.2⟩

theorem ask_closed (h : s.link = none) (r : Request) :
    Ends s r.ask (fun _ _ => False) fun _ s' => s' = s := by
  rw [Request.ask, ends_bind]
  refine ends_send (fun _ => rfl) (fun l w hl _ => ?_) fun l e w hl _ => ?_
  all_goals cases h.symm.trans hl

theorem ask_told (H : Member V o s) (hfree : V.Free) (hack : o.ackTimeout ≠ 0)
    (hl : s.link = some l) (hclear : s.Clear l) (r : Request) : Ends s r.ask
      (fun p s' => Confined V s' ∧ Told s s' l r.payload p) fun _ _ => False := by
  simp only [Request.ask, ends_bind, ends_get]
  have hid : Outsider V.areas s.id := (hfree _ _ (H.called l hl)).2
  refine (send_asked H.toConfined H.placed hl hclear hid r.payload_isRequest).mono ?_
    fun _ _ h => h
  rintro _ s₁ ⟨H₁, p, h₁⟩
  refine (await_told H₁ h₁ (h₁.link.trans hl) h₁.answered.kind_mem_replies
    r.publish_notMem_replies).mono ?_ fun _ _ h => ?_
  · rintro _ s₂ ⟨rfl, h₂⟩
    exact h₂
  · exact hack (H.options ▸ h₁.options ▸ h.1)

end Session

end Geocast
