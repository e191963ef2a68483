import Mathlib.Data.List.Forall2
import Geocast.Proofs.Broker.Reply

/-! # What the policy of a broker decides

Two brokers that differ in their policies only go through the same states, whatever payloads they
process (`after_withPolicy`), and they send the same messages, but for the publications of clients
whose location they know (`handle_unasked`). Of those, the policy decides whether all peers that
they reach get them or none, and the acknowledgement says which. -/

namespace Geocast

/-- Two messages that are the same, unless both acknowledge a publication which found no local
subscribers: then only one of them may say that the publication was forwarded. -/
inductive SameButForwarded : String × Payload → String × Payload → Prop
  | same (m : String × Payload) : SameButForwarded m m
  | forwardedLeft (c : String) : SameButForwarded
    (c, .pubAck .noMatchingSubscribersButForwarded) (c, .pubAck .noMatchingSubscribers)
  | forwardedRight (c : String) : SameButForwarded
    (c, .pubAck .noMatchingSubscribers) (c, .pubAck .noMatchingSubscribersButForwarded)

namespace Broker

/-- The same broker with another policy. -/
def withPolicy (b : Broker) (q : ForwardingPolicy) : Broker := { b with policy := q }

section
variable (b : Broker) (q : ForwardingPolicy) (c : String)

@[simp] theorem withPolicy_roster : (b.withPolicy q).roster = b.roster := rfl
@[simp] theorem withPolicy_atlas : (b.withPolicy q).atlas = b.atlas := rfl
@[simp] theorem withPolicy_policy : (b.withPolicy q).policy = q := rfl

@[simp] theorem delivered_withPolicy (l : Location) (p : Publication) :
    (b.withPolicy q).delivered l p = b.delivered l p := rfl

/-! ## Where the policy is not asked -/

@[simp] theorem evict_withPolicy : (b.withPolicy q).evict c = (b.evict c).withPolicy q := by
  unfold evict
  rw [withPolicy_roster]
  cases b.roster.remove? c <;> rfl

theorem redirect_withPolicy (l : Option Location) : (b.withPolicy q).redirect c l =
    ((b.redirect c l).1.withPolicy q, (b.redirect c l).2) := by
  rw [redirect, evict_withPolicy]
  rfl

theorem connect_withPolicy (l : Option Location) : (b.withPolicy q).connect c l =
    ((b.connect c l).1.withPolicy q, (b.connect c l).2) := by
  simp only [connect, withPolicy_atlas, withPolicy_roster, evict_withPolicy, redirect_withPolicy]
  split
  · cases b.roster.add? c l <;> rfl
  · rfl

theorem ping_withPolicy (l : Option Location) : (b.withPolicy q).ping c l =
    ((b.ping c l).1.withPolicy q, (b.ping c l).2) := by
  simp only [ping, withPolicy_atlas, withPolicy_roster, redirect_withPolicy]
  split
  · cases b.roster.relocate? c l <;> rfl
  · rfl

theorem subscribe_withPolicy (t : Topic) (g : Geofence) : (b.withPolicy q).subscribe c t g =
    ((b.subscribe c t g).1.withPolicy q, (b.subscribe c t g).2) := by
  simp only [subscribe, withPolicy_roster]
  cases b.roster.subscribe? c t g <;> rfl

theorem unsubscribe_withPolicy (t : Topic) : (b.withPolicy q).unsubscribe c t =
    ((b.unsubscribe c t).1.withPolicy q, (b.unsubscribe c t).2) := by
  simp only [unsubscribe, withPolicy_roster]
  cases b.roster.unsubscribe? c t <;> rfl

theorem publishUnlocated_withPolicy (p : Publication) : (b.withPolicy q).publishUnlocated c p =
    ((b.publishUnlocated c p).1.withPolicy q, (b.publishUnlocated c p).2) := by
  simp only [publishUnlocated, withPolicy_atlas, redirect_withPolicy]
  split
  · rfl
  · cases b.atlas.peerFor? p.geofence.centroid? <;> rfl

end

variable {b : Broker} {c : String} {p : Payload} {q : ForwardingPolicy}

/-- Whether a broker asks its policy about a payload. What a client publishes whose location is not
known is forwarded without asking. -/
def AsksPolicy (b : Broker) (c : String) (p : Payload) : Prop :=
  ∃ pub l, p = .publish pub ∧ b.roster.location? c = some l

theorem asksPolicy_publish {pub : Publication} :
    b.AsksPolicy c (.publish pub) ↔ (b.roster.location? c).isSome := by
  rw [Option.isSome_iff_exists]
  exact ⟨fun ⟨_, l, _, hl⟩ => ⟨l, hl⟩, fun ⟨l, hl⟩ => ⟨pub, l, rfl, hl⟩⟩

theorem handle_unasked (h : ¬ b.AsksPolicy c p) (q : ForwardingPolicy) :
    (b.withPolicy q).handle c p = ((b.handle c p).1.withPolicy q, (b.handle c p).2) := by
  cases p with
  | connect l => exact b.connect_withPolicy q c l
  | disconnect => exact congrArg (·, Dispatch.empty) (b.evict_withPolicy q c)
  | pingReq l => exact b.ping_withPolicy q c l
  | subscribe t g => exact b.subscribe_withPolicy q c t g
  | unsubscribe t => exact b.unsubscribe_withPolicy q c t
  | publish pub =>
    have hnone : b.roster.location? c = none :=
      Option.eq_none_iff_forall_ne_some.2 fun l hl => h ⟨pub, l, rfl, hl⟩
    simp only [handle, publish, withPolicy_roster, hnone]
    exact b.publishUnlocated_withPolicy q c pub
  | _ => rfl

theorem handle_withPolicy (b : Broker) (q : ForwardingPolicy) (c : String) (p : Payload) :
    ((b.withPolicy q).handle c p).1 = (b.handle c p).1.withPolicy q := by
  by_cases h : b.AsksPolicy c p
  · obtain ⟨pub, l, rfl, hl⟩ := h
    rw [handle_publish hl, handle_publish (b := b.withPolicy q) hl]
  · rw [handle_unasked h]

/-- A run under another policy goes through the same states. -/
theorem after_withPolicy (b : Broker) (q : ForwardingPolicy) (frames : List Frame) :
    (b.withPolicy q).after frames = (b.after frames).withPolicy q := by
  induction frames generalizing b with
  | nil => rfl
  | cons f fs ih => rw [after_cons, after_cons, handle_withPolicy, ih]

/-! ## Where it is asked -/

/-- The code of the acknowledgement goes by what was delivered and whether anything is forwarded. -/
theorem publishFrom_acked (b : Broker) (c : String) (l : Location) (pub : Publication) :
    (b.publishFrom c l pub).outgoing = (b.delivered l pub).outgoing ++ [(c, .pubAck
      (if matchResult (b.delivered l pub) = .noMatchingSubscribers &&
          !(b.publishFrom c l pub).forwards.isEmpty then .noMatchingSubscribersButForwarded
        else matchResult (b.delivered l pub)))] := by
  rw [publishFrom_forwards]
  exact congrArg (· ++ _) (List.append_nil _)

theorem publishFrom_alike (b : Broker) (q q' : ForwardingPolicy) (c : String) (l : Location)
    (pub : Publication) :
    List.Forall₂ SameButForwarded ((b.withPolicy q).publishFrom c l pub).outgoing
      ((b.withPolicy q').publishFrom c l pub).outgoing := by
  rw [publishFrom_acked, publishFrom_acked, delivered_withPolicy, delivered_withPolicy]
  refine List.rel_append (List.forall₂_same.2 fun m _ => .same m) (.cons ?_ .nil)
  cases hfound : decide (matchResult (b.delivered l pub) = .noMatchingSubscribers) with
  | false => exact .same _
  | true =>
    rw [of_decide_eq_true hfound]
    -- whether there are forwards, here and there
    cases ((b.withPolicy q).publishFrom c l pub).forwards.isEmpty <;>
      cases ((b.withPolicy q').publishFrom c l pub).forwards.isEmpty
    · exact .same _
    · exact .forwardedLeft c
    · exact .forwardedRight c
    · exact .same _

theorem publishFrom_all_or_none (b : Broker) (q : ForwardingPolicy) (c : String) (l : Location)
    (pub : Publication) :
    ((b.withPolicy q).publishFrom c l pub).forwards = [] ∨
      ((b.withPolicy q).publishFrom c l pub).forwards =
        ((b.withPolicy .forwardAll).publishFrom c l pub).forwards := by
  rw [publishFrom_forwards, publishFrom_forwards]
  split
  · exact .inl rfl
  · exact .inr rfl

theorem matchResult_eq_none {d : Dispatch} :
    matchResult d = .noMatchingSubscribers ↔ d.outgoing = [] := by
  unfold matchResult
  split <;> simp_all

/-- A call that is forwarded found no local subscriber. -/
theorem call_undelivered {k : CallConvention} {pub : Publication} (hp : p.carried? = some pub)
    (hcall : pub.topic.lastLevel = k.requestSuffix)
    (hforwards : ((b.withPolicy k.policy).handle c p).2.forwards ≠ []) :
    ∀ m ∈ ((b.withPolicy k.policy).handle c p).2.outgoing, m.2.kind ≠ .publish := by
  obtain ⟨m, hm⟩ := List.exists_mem_of_ne_nil _ hforwards
  obtain ⟨pub', rfl⟩ := publish_of_forwarded hm
  cases hp
  cases hl : b.roster.location? c with
  | none =>
    obtain ⟨r, hout, hr⟩ := (b.withPolicy k.policy).publishUnlocated_outgoing c pub
    simp only [handle, publish, withPolicy_roster, hl, hout]
    exact fun m hm => List.mem_singleton.1 hm ▸ hr
  | some l =>
    rw [handle_publish (b := b.withPolicy k.policy) hl] at hforwards ⊢
    rw [publishFrom_forwards] at hforwards
    have hfound : matchResult (b.delivered l pub) = .noMatchingSubscribers := by
      by_contra hfound
      refine hforwards (if_pos ?_)
      simp [CallConvention.policy, Topic.endsWithLevel, hcall, hfound]
    obtain ⟨reason, hout⟩ := (b.withPolicy k.policy).publishFrom_outgoing c l pub
    rw [hout, delivered_withPolicy, matchResult_eq_none.1 hfound]
    exact fun m hm => List.mem_singleton.1 hm ▸ by simp [Payload.kind]

/-- The policy of a broker decides about forwarding and nothing else. Two brokers that differ in
their policies only have the same records and the same index after every sequence of payloads, and
whatever they are sent next, they send the same messages to their peers, but for the code that
acknowledges a publication without local subscribers. Unless a client whose location is known
publishes, they also forward the same. What is forwarded of such a client's publication is nothing
or all that is forwarded under the policy that forwards everything; and under a convention of
function calls no call is both delivered and forwarded. -/
theorem policy_decides_forwards_only (b : Broker) (q q' : ForwardingPolicy) (frames : List Frame)
    (c : String) (p : Payload) :
    let after (q : ForwardingPolicy) : Broker := (b.withPolicy q).after frames
    let sent (q : ForwardingPolicy) : Dispatch := ((after q).handle c p).2
    ((after q).roster = (after q').roster ∧ (after q).index = (after q').index) ∧
    List.Forall₂ SameButForwarded (sent q).outgoing (sent q').outgoing ∧
    (¬ (after q).AsksPolicy c p → sent q = sent q') ∧
    ((after q).AsksPolicy c p →
      (sent q).forwards = [] ∨ (sent q).forwards = (sent .forwardAll).forwards) ∧
    ∀ (k : CallConvention) (pub : Publication), p.carried? = some pub →
      pub.topic.lastLevel = k.requestSuffix → (sent k.policy).forwards ≠ [] →
      ∀ m ∈ (sent k.policy).outgoing, m.2.kind ≠ .publish := by
  intro after sent
  have hafter (q : ForwardingPolicy) : after q = (b.after frames).withPolicy q :=
    b.after_withPolicy q frames
  simp only [sent, hafter]
  generalize b.after frames = b'
  have hunasked (h : ¬ b'.AsksPolicy c p) (q : ForwardingPolicy) :
      ((b'.withPolicy q).handle c p).2 = (b'.handle c p).2 := by rw [handle_unasked h]
  refine ⟨⟨rfl, rfl⟩, ?_, fun h => (hunasked h q).trans (hunasked h q').symm, ?_,
    fun k pub => call_undelivered⟩
  · by_cases h : b'.AsksPolicy c p
    · obtain ⟨pub, l, rfl, hl⟩ := h
      rw [handle_publish (b := b'.withPolicy q) hl, handle_publish (b := b'.withPolicy q') hl]
      exact b'.publishFrom_alike q q' c l pub
    · rw [hunasked h, hunasked h]
      exact List.forall₂_same.2 fun m _ => .same m
  · rintro ⟨pub, l, rfl, hl⟩
    rw [handle_publish (b := b'.withPolicy q) hl,
      handle_publish (b := b'.withPolicy .forwardAll) hl]
    exact b'.publishFrom_all_or_none q c l pub

/-- A car registers at the broker of the city, and a service node that waits for calls. -/
def sieveFrames : List Frame :=
  [⟨"car", .connect (some ⟨52.5, 13.4⟩)⟩, ⟨"GeoFaaS-berlin", .connect (some ⟨52.6, 13.6⟩)⟩,
    ⟨"GeoFaaS-berlin", .subscribe ⟨"sieve/call"⟩ .world⟩]

/-- The call of the car reaches the service node and therefore no other broker, unless everything is
forwarded. The car and the node cannot tell the difference, and for a call of somebody whom the
broker does not know there is none. -/
theorem sieveFrames_called :
    let start := start (.view cityAndRoot cityAndRoot[0]) .forwardAll
    let k := CallConvention.standard
    let call : Payload := .publish ⟨⟨"sieve/call"⟩, .world, "100"⟩
    let sent (q : ForwardingPolicy) (c : String) : Dispatch :=
      (((start.withPolicy q).after sieveFrames).handle c call).2
    ((sent k.policy "car").forwards = [] ∧ (sent .forwardAll "car").forwards ≠ []) ∧
    List.Forall₂ SameButForwarded (sent k.policy "car").outgoing (sent .forwardAll "car").outgoing ∧
    sent k.policy "ship" = sent .forwardAll "ship" := by
  intro start k call sent
  obtain ⟨-, halike, -, -, hcall⟩ :=
    policy_decides_forwards_only start k.policy .forwardAll sieveFrames "car" call
  obtain ⟨-, -, hunasked, -⟩ :=
    policy_decides_forwards_only start k.policy .forwardAll sieveFrames "ship" call
  have hship : ¬ ((start.withPolicy k.policy).after sieveFrames).AsksPolicy "ship" call :=
    fun h => absurd (asksPolicy_publish.1 h) (by decide +kernel)
  have hspread : (sent .forwardAll "car").forwards.isEmpty = false := by decide +kernel
  have hnode : (sent k.policy "car").outgoing.any (·.2.kind = .publish) := by decide +kernel
  dsimp only [sent] at hspread hnode ⊢
  dsimp only at halike hcall
  refine ⟨⟨?_, List.isEmpty_eq_false_iff.1 hspread⟩, halike, hunasked hship⟩
  obtain ⟨m, hm, hkind⟩ := List.any_eq_true.1 hnode
  by_contra hkept
  exact hcall k _ rfl (by decide) hkept m hm (of_decide_eq_true hkind)

end Broker

end Geocast
