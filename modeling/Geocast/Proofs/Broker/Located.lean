import Geocast.Proofs.Broker.Publication
import Geocast.Proofs.Broker.Responsibility

/-! # Where a forwarded publication comes from

A broker matches a forwarded publication only if it is told where the publisher is. A broker that
forwards knows the location of its client, or takes the center of the geofence for it. There is no
center if the geofence bounds no region, and then the root is responsible for the client: so a
broker tells the location with all that it forwards, unless it forwards such a publication to a root
among its peers (`forwards_located_iff`). -/

namespace Geocast

/-- A geofence has a center exactly when it bounds a region. -/
theorem Geofence.centroid?_eq_none_iff {g : Geofence} : g.centroid? = none ↔ g.isDegenerate := by
  unfold centroid?
  split
  · next h => simp [h]
  · next h => cases g <;> simp_all [isDegenerate]

namespace Atlas

variable (a : Atlas)

/-- Nobody but the root is responsible for a client without a location. -/
@[simp] theorem isResponsibleFor_none : a.isResponsibleFor none = a.own.root := by
  unfold isResponsibleFor
  cases a.own.root <;> simp

@[simp] theorem peerFor?_none : a.peerFor? none = (a.others.find? (·.root)).map (·.broker) := rfl

end Atlas

namespace Broker

variable {b : Broker} {c : String} {q : Payload} {p : Publication}

/-- A publication whose publisher cannot be placed: the location of the client is not known, the
geofence has no center, and the broker is not the root but has one among its peers. -/
def Unplaceable (b : Broker) (c : String) : Payload → Prop
  | .publish p => b.roster.location? c = none ∧ p.geofence.isDegenerate ∧
      b.atlas.own.root = false ∧ ∃ o ∈ b.atlas.others, o.root
  | _ => False

/-! ## The sender -/

/-- For a client without a location, the broker responsible for the center of the geofence is sent
the publication, with this center as its location. -/
theorem publishUnlocated_forwards (b : Broker) (c : String) (p : Publication) :
    (b.publishUnlocated c p).2.forwards =
      if b.atlas.isResponsibleFor p.geofence.centroid? then []
      else ((b.atlas.peerFor? p.geofence.centroid?).map fun o =>
        (o, .forwardPublish p p.geofence.centroid?)).toList := by
  unfold publishUnlocated
  dsimp only
  split
  · rfl
  · split <;> next h => rw [h]; rfl

/-- A publication is forwarded without a location exactly when its publisher cannot be placed. -/
theorem location_of_forwarded {m : BrokerInfo × Payload} (hm : m ∈ (b.handle c q).2.forwards) :
    ∃ p l, q = .publish p ∧ m.2 = .forwardPublish p l ∧ (l = none ↔ b.Unplaceable c q) := by
  obtain ⟨p, rfl⟩ := publish_of_forwarded hm
  rw [handle, publish] at hm
  split at hm
  · next l hl =>
    rw [publishFrom_forwards] at hm
    split at hm
    · exact absurd hm List.not_mem_nil
    · obtain ⟨o, -, rfl⟩ := List.mem_map.1 hm
      exact ⟨p, some l, rfl, rfl, by simp [Unplaceable, hl]⟩
  · next hl =>
    rw [publishUnlocated_forwards] at hm
    split at hm
    · exact absurd hm List.not_mem_nil
    · next hresp =>
      obtain ⟨o, ho, rfl⟩ := Option.map_eq_some_iff.1 (Option.mem_toList.1 hm)
      refine ⟨p, _, rfl, rfl, fun hnone => ?_, fun h => Geofence.centroid?_eq_none_iff.2 h.2.1⟩
      rw [hnone, Atlas.isResponsibleFor_none, Bool.not_eq_true] at hresp
      rw [hnone, Atlas.peerFor?_none] at ho
      obtain ⟨root, hroot, -⟩ := Option.map_eq_some_iff.1 ho
      exact ⟨hl, Geofence.centroid?_eq_none_iff.1 hnone, hresp, root,
        List.mem_of_find?_eq_some hroot, List.find?_some hroot⟩

/-- A publication whose publisher cannot be placed is forwarded. -/
theorem forwarded_of_unplaceable (h : b.Unplaceable c q) :
    ∃ m, m ∈ (b.handle c q).2.forwards := by
  cases q with
  | publish p =>
    obtain ⟨hl, hdegenerate, hroot, o, ho, horoot⟩ := h
    have hcenter : p.geofence.centroid? = none := Geofence.centroid?_eq_none_iff.2 hdegenerate
    obtain ⟨r, hr⟩ := Option.isSome_iff_exists.1
      (List.find?_isSome (p := BrokerArea.root).2 ⟨o, ho, horoot⟩)
    refine ⟨(r.broker, .forwardPublish p none), ?_⟩
    rw [handle, publish, hl]
    dsimp only
    rw [publishUnlocated_forwards, hcenter, Atlas.isResponsibleFor_none, hroot,
      Atlas.peerFor?_none, hr]
    exact List.mem_singleton.2 rfl
  | _ => exact h.elim

/-! ## The receiver -/

/-- A broker that is told the location of the publisher never takes a forward for an error. -/
theorem protocolError_receiveForward_iff (b : Broker) (peer : String) (p : Publication)
    (l : Option Location) :
    (peer, .pubAck .protocolError) ∈ (b.receiveForward peer p l).outgoing ↔ l = none := by
  cases l with
  | none => exact iff_of_true (List.mem_singleton.2 rfl) rfl
  | some l =>
    refine iff_of_false (fun hm => ?_) (Option.some_ne_none l)
    rcases List.mem_append.1 hm with hm | hm
    · cases mem_deliveries hm
    · have hreason := congrArg Prod.snd (List.mem_singleton.1 hm)
      unfold matchResult at hreason
      split at hreason <;> cases hreason

/-- Forwards are matched, but for those whose publisher cannot be placed. Whatever state a broker is
in and whatever it receives: all that it forwards tells the location of the publisher, unless it
received a publication of a client whose location is not known, within a geofence that has no
center, and is not the root itself but has one among its peers; then it does forward, and without a
location. A broker that is told a location matches the publication among its own clients, in every
state, and says to the forwarding broker whether there was a subscriber; told none, it delivers
nothing and answers with a protocol error. -/
theorem forwards_located_iff (b : Broker) (c : String) (q : Payload) :
    ((∀ m ∈ (b.handle c q).2.forwards, ∃ p l, m.2 = .forwardPublish p (some l)) ↔
      ¬ b.Unplaceable c q) ∧
    ∀ m ∈ (b.handle c q).2.forwards, ∃ p l, q = .publish p ∧ m.2 = .forwardPublish p l ∧
      (l = none ↔ b.Unplaceable c q) ∧ ∀ receiver : Broker,
        ((b.id, .pubAck .protocolError) ∈ (receiver.handle b.id m.2).2.outgoing ↔ l = none) ∧
        (l = none → (receiver.handle b.id m.2).2.outgoing = [(b.id, .pubAck .protocolError)]) ∧
        ∀ place, l = some place → (receiver.handle b.id m.2).2.outgoing =
          (receiver.deliveries place p).outgoing ++
            [(b.id, .pubAck (matchResult (receiver.deliveries place p)))] := by
  refine ⟨⟨fun H hunplaceable => ?_, fun hplaced m hm => ?_⟩, fun m hm => ?_⟩
  · obtain ⟨m, hm⟩ := forwarded_of_unplaceable hunplaceable
    obtain ⟨p, l, -, hml, hnone⟩ := location_of_forwarded hm
    obtain ⟨p', l', hml'⟩ := H m hm
    rw [hml, hnone.2 hunplaceable] at hml'
    cases hml'
  · obtain ⟨p, l, -, hml, hnone⟩ := location_of_forwarded hm
    obtain ⟨l', rfl⟩ := Option.ne_none_iff_exists'.1 fun h => hplaced (hnone.1 h)
    exact ⟨p, l', hml⟩
  · obtain ⟨p, l, rfl, hml, hnone⟩ := location_of_forwarded hm
    refine ⟨p, l, rfl, hml, hnone, fun receiver => ?_⟩
    rw [hml]
    refine ⟨receiver.protocolError_receiveForward_iff b.id p l, ?_, ?_⟩
    · rintro rfl
      rfl
    · rintro place rfl
      rfl

/-- The broker of the city forwards a publication within no region, which nobody registered made, to
the root without a location; and the root answers with a protocol error. -/
theorem nowhere_is_forwarded :
    let p : Publication := ⟨⟨"t"⟩, .undefined, "x"⟩
    (ofCity.handle "producer" (.publish p)).2.forwards =
      [(⟨"cloud", "127.0.0.1:6000"⟩, .forwardPublish p none)] ∧
    ∀ root : Broker, (root.handle ofCity.id (.forwardPublish p none)).2.outgoing =
      [(ofCity.id, .pubAck .protocolError)] := by
  refine ⟨?_, fun root => rfl⟩
  rfl

end Broker

end Geocast
