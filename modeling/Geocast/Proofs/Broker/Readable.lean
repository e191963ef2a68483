import Geocast.Proofs.Broker.InCharge
import Geocast.Proofs.Broker.Located
import Geocast.Proofs.Message.RoundTrip

/-! # Whether receivers can read what a broker sends

A frame is read back from its text when its doubles are finite, and what was read from a text has
finite doubles only. A broker sends on what it read, but for one location that it works out itself:
the center of a geofence, which stands in for a location that is not known. The sums behind the
center of a polygon can leave the range of doubles although no vertex does. Such a center is written
as null, and the forward is not read (`Frame.decode?_encode_eq_none`). All else that a broker sends
is read back (`sent_readable_iff`). -/

namespace Geocast

open Json (ReadsBack)

theorem Location.isFinite_iff {l : Location} : l.isFinite ↔ ∀ x ∈ l.doubles, isFiniteFloat x := by
  simp [isFinite, doubles]

/-- The payload of a frame that was read from a text. -/
def Payload.Decoded (p : Payload) : Prop :=
  ∃ text sender, Frame.decode? text = some ⟨sender, p⟩

/-- Whoever sends the payload, the frame is read back from the text that it is written as. -/
def Payload.Readable (p : Payload) : Prop :=
  ∀ sender, Frame.decode? (Frame.encode ⟨sender, p⟩) = some ⟨sender, p⟩

/-- All that is sent, whoever to. -/
def Dispatch.payloads (d : Dispatch) : List Payload :=
  d.outgoing.map Prod.snd ++ d.forwards.map Prod.snd

theorem Payload.Decoded.finite {p : Payload} (h : p.Decoded) :
    ∀ x ∈ p.doubles, isFiniteFloat x := by
  obtain ⟨text, sender, h⟩ := h
  exact Frame.decode?_finite text _ h

theorem Payload.Decoded.of_readsBack {p : Payload} (h : ∀ x ∈ p.doubles, ReadsBack x) :
    p.Decoded :=
  ⟨_, "", Frame.decode?_encode (f := ⟨"", p⟩) h⟩

/-- If its finite doubles read back, then a payload is readable exactly if it has no others. -/
theorem Payload.readable_iff {p : Payload} (h : ∀ x ∈ p.doubles, isFiniteFloat x → ReadsBack x) :
    p.Readable ↔ ∀ x ∈ p.doubles, isFiniteFloat x :=
  ⟨fun H => Frame.decode?_finite _ _ (H ""),
    fun H _ => Frame.decode?_encode fun x hx => h x hx (H x hx)⟩

/-- Only the center of a polygon is worked out. -/
theorem Geofence.polygon_of_centroid? {g : Geofence} {l : Location}
    (hg : ∀ x ∈ g.doubles, isFiniteFloat x) (h : g.centroid? = some l) (hl : l.isFinite = false) :
    ∃ vertices, g = .polygon vertices ∧ l = vertices.mean := by
  unfold centroid? at h
  split at h
  · exact nomatch h
  · cases g with
    | circle center radius =>
      cases h
      have hcenter := Location.isFinite_iff.2 (List.forall_mem_cons.1 hg).2
      exact absurd hcenter (by simp [hl])
    | polygon vertices => exact ⟨vertices, rfl, (Option.some.inj h).symm⟩
    | undefined => exact nomatch h

/-! ## A location that is not finite -/

theorem Location.ofJson?_toJson_eq_none {l : Location} (h : l.isFinite = false) :
    Location.ofJson? l.toJson = none := by
  have hfields : l.toJson.fields? ["lat", "lon"] 0
      = some [some (.float l.lat), some (.float l.lon)] :=
    Json.fields?_ofMembers 0 rfl (by decide)
  rcases Bool.and_eq_false_iff.1 h with h | h <;>
    simp [ofJson?, hfields, Json.float_of_not_isFinite h, Json.float?]

theorem Payload.ofSound?_eq_none {p : Publication} {l : Location} (h : l.isFinite = false) :
    Payload.ofSound? (toJson (.forwardPublish p (some l))) = none := by
  have htag : (toJson (.forwardPublish p (some l))).variant? "type" =
      some (.text (tagOf .forwardPublish), .ofMembers (members (.forwardPublish p (some l)))) :=
    Json.variant?_ofMembers _ (by simp [members])
  have hfields : (Json.ofMembers (members (.forwardPublish p (some l)))).fields?
      ["publish", "publisher_location"] 0 = some [some p.toJson, some l.toJson] :=
    Json.fields?_ofMembers 0 rfl (by decide)
  have hlocation : Json.nullable Location.ofJson? (some l.toJson) = none := by
    show (Location.ofJson? l.toJson).map some = none
    rw [Location.ofJson?_toJson_eq_none h]
    rfl
  simp [ofSound?, htag, kindOf?_tagOf, ofBody?, hfields, hlocation]

/-- The receiver of a forward gets nothing of it if the location in it is not finite. -/
theorem Frame.decode?_encode_eq_none {sender : String} {p : Publication} {l : Location}
    (h : ∀ x ∈ (Payload.forwardPublish p (some l)).doubles, isFiniteFloat x → ReadsBack x)
    (hl : l.isFinite = false) : decode? (encode ⟨sender, .forwardPublish p (some l)⟩) = none := by
  have hfields : (toJson ⟨sender, .forwardPublish p (some l)⟩).fields? ["sender", "payload"] 0
      = some [some (.text sender), some (Payload.toJson (.forwardPublish p (some l)))] :=
    Json.fields?_ofMembers 0 rfl (by decide)
  have hpayload : Payload.ofJson? 1 (Payload.toJson (.forwardPublish p (some l))) = none := by
    unfold Payload.ofJson?
    split
    · exact Payload.ofSound?_eq_none hl
    · rfl
  unfold decode? encode
  rw [Json.parse_render (isSound_toJson (f := ⟨sender, _⟩) h 0)]
  simp [ofJson?, hfields, hpayload]

namespace Broker

variable {b b' : Broker} {c : String} {p q : Payload}

/-! ## The locations of clients -/

/-- The locations that the broker knows of are finite. -/
def FiniteLocations (b : Broker) : Prop :=
  ∀ c record, b.record? c = some record → ∀ l ∈ record.location, l.isFinite

theorem FiniteLocations.change (H : FiniteLocations b) (h : Change b c p b')
    (hp : ∀ x ∈ p.doubles, isFiniteFloat x) : FiniteLocations b' := by
  intro y record hrecord l hl
  rcases h.record?_location hrecord with ⟨old, hold, hsame⟩ | ⟨hsent, -⟩
  · exact H y old hold l (hsame ▸ hl)
  · refine Location.isFinite_iff.2 fun x hx => hp x ?_
    rw [Option.mem_def.1 hl] at hsent
    rcases hsent with rfl | rfl <;> simpa [Payload.doubles] using hx

theorem finiteLocations_after (atlas : Atlas) (policy : ForwardingPolicy) {frames : List Frame}
    (hframes : ∀ f ∈ frames, f.payload.Decoded) :
    FiniteLocations ((start atlas policy).after frames) :=
  after_keeps_of (Q := Payload.Decoded) (fun h hp H => H.change h hp.finite) hframes
    (show FiniteLocations (start atlas policy) from nofun)

theorem FiniteLocations.location? {l : Location} (H : FiniteLocations b)
    (h : b.roster.location? c = some l) : l.isFinite := by
  obtain ⟨record, hrecord, hl⟩ := Option.bind_eq_some_iff.1 h
  exact H c record hrecord l hl

/-! ## What is sent -/

/-- A client whose location is not known publishes within a polygon whose center is not finite, and
another broker than this one is taken to be responsible for the center. -/
def Overflows (b : Broker) (c : String) : Payload → Prop
  | .publish r => b.roster.location? c = none ∧ ∃ vertices, r.geofence = .polygon vertices ∧
      r.geofence.centroid? = some vertices.mean ∧ vertices.mean.isFinite = false ∧
      b.atlas.isResponsibleFor vertices.mean = false ∧ (b.atlas.peerFor? vertices.mean).isSome
  | _ => False

theorem doubles_of_replies (h : q.Replies p) : q.doubles = [] := by
  have hkind : q.kind ∈ [.connAck, .pingResp, .subAck, .unsubAck, .pubAck, .disconnect] := by
    rcases h with h | ⟨h, -⟩
    · cases p <;> simp_all [Payload.ackKind?]
    · simp [h]
  cases q with
  | connAck | pingResp | subAck | unsubAck | pubAck | disconnect => rfl
  | _ => simp [Payload.kind] at hkind

theorem finite_of_outgoing (hp : ∀ x ∈ p.doubles, isFiniteFloat x) {m : String × Payload}
    (hm : m ∈ (b.handle c p).2.outgoing) : ∀ x ∈ m.2.doubles, isFiniteFloat x := by
  rcases sent_cases hm with ⟨r, hr, hmr⟩ | ⟨-, hreply⟩
  · rw [hmr]
    cases p with
    | publish r' => cases hr; exact hp
    | forwardPublish r' l => cases hr; exact (List.forall_mem_append.1 hp).1
    | _ => cases hr
  · rw [doubles_of_replies hreply]
    exact List.forall_mem_nil _

/-- A forward has finite doubles only, or it tells the center of the polygon for the location. -/
theorem finite_of_forwarded (H : FiniteLocations b) (hp : ∀ x ∈ p.doubles, isFiniteFloat x)
    {m : BrokerInfo × Payload} (hm : m ∈ (b.handle c p).2.forwards) :
    (∀ x ∈ m.2.doubles, isFiniteFloat x) ∨ b.Overflows c p ∧ ∃ r vertices, p = .publish r ∧
      r.geofence = .polygon vertices ∧ vertices.mean.isFinite = false ∧
      m.2 = .forwardPublish r (some vertices.mean) := by
  obtain ⟨r, rfl⟩ := publish_of_forwarded hm
  have hlocated {l : Location} (hl : l.isFinite) :
      ∀ x ∈ (Payload.forwardPublish r (some l)).doubles, isFiniteFloat x :=
    List.forall_mem_append.2 ⟨hp, by simpa using Location.isFinite_iff.1 hl⟩
  rw [handle, publish] at hm
  split at hm
  · next l hl =>
    rw [publishFrom_forwards] at hm
    split at hm
    · exact absurd hm List.not_mem_nil
    · obtain ⟨o, -, rfl⟩ := List.mem_map.1 hm
      exact .inl (hlocated (H.location? hl))
  · next hnone =>
    rw [publishUnlocated_forwards] at hm
    split at hm
    · exact absurd hm List.not_mem_nil
    · next hresp =>
      obtain ⟨o, ho, rfl⟩ := Option.map_eq_some_iff.1 (Option.mem_toList.1 hm)
      cases hcenter : r.geofence.centroid? with
      | none => exact .inl (List.forall_mem_append.2 ⟨hp, List.forall_mem_nil _⟩)
      | some l =>
        by_cases hl : l.isFinite
        · exact .inl (hlocated hl)
        · rw [Bool.not_eq_true] at hl
          obtain ⟨vertices, hg, rfl⟩ := Geofence.polygon_of_centroid? hp hcenter hl
          rw [hcenter, Bool.not_eq_true] at hresp
          rw [hcenter] at ho
          exact .inr ⟨⟨hnone, vertices, hg, hcenter, hl, hresp, Option.isSome_of_eq_some ho⟩,
            r, vertices, rfl, hg, hl, rfl⟩

/-- A publication whose center is not finite is forwarded with it. -/
theorem forwarded_of_overflows (h : b.Overflows c p) : ∃ r l, l.isFinite = false ∧
    .forwardPublish r (some l) ∈ (b.handle c p).2.payloads := by
  cases p with
  | publish r =>
    obtain ⟨hnone, vertices, -, hcenter, hmean, hresp, hpeer⟩ := h
    obtain ⟨o, ho⟩ := Option.isSome_iff_exists.1 hpeer
    refine ⟨r, vertices.mean, hmean, List.mem_append_right _ ?_⟩
    rw [handle, publish, hnone]
    dsimp only
    rw [publishUnlocated_forwards, hcenter, hresp, ho]
    exact List.mem_singleton.2 rfl
  | _ => exact h.elim

/-- All that is sent is read back, but for a forward with a center that is not finite. -/
theorem readable_or_overflows (H : FiniteLocations b) (hp : ∀ x ∈ p.doubles, isFiniteFloat x)
    (hq : q ∈ (b.handle c p).2.payloads)
    (hfloats : ∀ x ∈ q.doubles, isFiniteFloat x → ReadsBack x) :
    q.Readable ∨ b.Overflows c p ∧ ∃ r vertices, p = .publish r ∧
      r.geofence = .polygon vertices ∧ q = .forwardPublish r (some vertices.mean) ∧
      ∀ sender, Frame.decode? (Frame.encode ⟨sender, q⟩) = none := by
  rcases List.mem_append.1 hq with hq | hq <;> obtain ⟨m, hm, rfl⟩ := List.mem_map.1 hq
  · exact .inl ((Payload.readable_iff hfloats).2 (finite_of_outgoing hp hm))
  · rcases finite_of_forwarded H hp hm with hfinite | ⟨hover, r, vertices, hr, hg, hl, hmr⟩
    · exact .inl ((Payload.readable_iff hfloats).2 hfinite)
    · rw [hmr] at hfloats ⊢
      exact .inr ⟨hover, r, vertices, hr, hg, rfl, fun _ => Frame.decode?_encode_eq_none hfloats hl⟩

/-- A broker began without clients and was fed with payloads that were read from texts, and so is
the payload that it processes now. Provided that finite doubles read back, all that it sends is read
back, unless the center of a polygon overflows: a client whose location is not known publishes
within a polygon whose mean is not finite, this broker is not responsible for the mean, and another
one is named for it. Then the publication is forwarded with that mean, the forward is not read at
all, and the rest of what is sent is read back as always. -/
theorem sent_readable_iff (atlas : Atlas) (policy : ForwardingPolicy) {frames : List Frame}
    (hframes : ∀ f ∈ frames, f.payload.Decoded) (c : String) {p : Payload} (hp : p.Decoded)
    (hfloats : ∀ q ∈ (((start atlas policy).after frames).handle c p).2.payloads,
      ∀ x ∈ q.doubles, isFiniteFloat x → ReadsBack x) :
    let b := (start atlas policy).after frames
    let d := (b.handle c p).2
    ((∀ q ∈ d.payloads, q.Readable) ↔ ¬ b.Overflows c p) ∧
    ∀ q ∈ d.payloads, q.Readable ∨ b.Overflows c p ∧ ∃ r vertices, p = .publish r ∧
      r.geofence = .polygon vertices ∧ q = .forwardPublish r (some vertices.mean) ∧
      ∀ sender, Frame.decode? (Frame.encode ⟨sender, q⟩) = none := by
  intro b d
  have H : FiniteLocations b := finiteLocations_after atlas policy hframes
  have heach := fun q hq => readable_or_overflows H hp.finite hq (hfloats q hq)
  refine ⟨⟨fun hall hover => ?_, fun hnot q hq => ?_⟩, heach⟩
  · obtain ⟨r, l, hl, hsent⟩ := forwarded_of_overflows hover
    have hnone : Frame.decode? (Frame.encode ⟨"", _⟩) = none :=
      Frame.decode?_encode_eq_none (hfloats _ hsent) hl
    exact nomatch hnone.symm.trans (hall _ hsent "")
  · exact (heach q hq).resolve_right fun h => hnot h.1

/-- A publication of a client that registered is delivered to it, forwarded to the root and
acknowledged, and each of these is read back. -/
theorem ofCity_sent_readable :
    let report : Payload :=
      .publish ⟨⟨"jams"⟩, .polygon [⟨52.5, 13.25⟩, ⟨52.5, 14⟩, ⟨53, 14⟩], "A100"⟩
    let hello : Frame := ⟨"car", .connect (some ⟨52.5, 13.5⟩)⟩
    ∀ q ∈ ((ofCity.after [hello]).handle "car" report).2.payloads, q.Readable := by
  intro report hello
  have hhello : ∀ f ∈ [hello], f.payload.Decoded := by
    rintro f (_ | ⟨_, ⟨⟩⟩)
    exact .of_readsBack (by decide +kernel)
  have hreport : report.Decoded := .of_readsBack (by decide +kernel)
  have hfloats : ∀ q ∈ ((ofCity.after [hello]).handle "car" report).2.payloads,
      ∀ x ∈ q.doubles, ReadsBack x := by decide +kernel
  have hlocated : ((ofCity.after [hello]).roster.location? "car").isSome := by decide +kernel
  refine (sent_readable_iff _ _ hhello "car" hreport fun q hq x hx _ => hfloats q hq x hx).1.2 ?_
  rintro ⟨hnone, -⟩
  exact Option.isSome_iff_ne_none.1 hlocated hnone

/-- Three vertices whose latitudes add up to more than a double can hold. -/
def polar : Publication := ⟨⟨"t"⟩, .polygon [⟨1e308, 0⟩, ⟨1e308, 1⟩, ⟨1.5e308, 0⟩], "x"⟩

/-- The publication can be read from a text, and what the broker of the city forwards of it for a
client that never registered cannot. -/
theorem polar_unreadable : (Payload.publish polar).Decoded ∧
    ∃ q ∈ (ofCity.handle "producer" (.publish polar)).2.payloads, ¬ q.Readable ∧
      ∀ sender, Frame.decode? (Frame.encode ⟨sender, q⟩) = none := by
  have hdecoded : (Payload.publish polar).Decoded := .of_readsBack (by decide +kernel)
  have hfloats : ∀ q ∈ (ofCity.handle "producer" (.publish polar)).2.payloads,
      ∀ x ∈ q.doubles, isFiniteFloat x → ReadsBack x := by decide +kernel
  have hover : ofCity.Overflows "producer" (.publish polar) :=
    ⟨rfl, _, rfl, rfl, by decide +kernel, by decide +kernel, by decide +kernel⟩
  obtain ⟨r, l, hl, hsent⟩ := forwarded_of_overflows hover
  have hnone (sender : String) : Frame.decode? (Frame.encode ⟨sender, _⟩) = none :=
    Frame.decode?_encode_eq_none (hfloats _ hsent) hl
  refine ⟨hdecoded, _, hsent, fun hread => ?_, hnone⟩
  exact nomatch (hnone "").symm.trans (hread "")

end Broker

end Geocast
