import Geocast.Proofs.Message.Doubles
import Mathlib

/-! # Frames read back

A frame is read back from the text that it is written as, whatever its strings and however large
its geofences (`Frame.roundTrip`). What is asked of the numerals is that the doubles of the frame
come back one by one; everything else is a matter of names, tags and nesting, and is shown type by
type, from locations up to frames. -/

namespace Geocast

open Json (ReadsBack)

/-! ## Soundness

A double that is not finite does no harm to the text of a frame, since it is written as null. -/

theorem Location.isSound_toJson {a : Location}
    (h : ∀ x ∈ a.doubles, isFiniteFloat x → ReadsBack x) (d : Nat) : a.toJson.isSound (d + 1) := by
  have hlat := Json.isSound_float (h a.lat (by simp [doubles])) d
  have hlon := Json.isSound_float (h a.lon (by simp [doubles])) d
  simp [toJson, hlat, hlon]

theorem Geofence.isSound_toJson {g : Geofence}
    (h : ∀ x ∈ g.doubles, isFiniteFloat x → ReadsBack x) (d : Nat) : g.toJson.isSound (d + 3) := by
  cases g with
  | circle center radius =>
    obtain ⟨hradius, hcenter⟩ := List.forall_mem_cons.1 h
    simp [toJson, Json.isSound_float hradius, Location.isSound_toJson hcenter]
  | polygon vertices =>
    have hvertices := List.forall_mem_flatMap.1 h
    simpa [toJson] using fun a ha => Location.isSound_toJson (hvertices a ha) d
  | undefined => simp [toJson]

theorem Publication.isSound_toJson {p : Publication}
    (h : ∀ x ∈ p.doubles, isFiniteFloat x → ReadsBack x) (d : Nat) :
    p.toJson.isSound (d + 4) := by
  simp [toJson, members, Topic.toJson, Geofence.isSound_toJson h]

theorem Location.isSound_ofOption {l : Option Location}
    (h : ∀ x ∈ l.toList.flatMap Location.doubles, isFiniteFloat x → ReadsBack x) (d : Nat) :
    (Json.ofOption Location.toJson l).isSound (d + 1) := by
  have hl := List.forall_mem_flatMap.1 h
  exact Json.isSound_ofOption fun a ha => isSound_toJson (hl a (Option.mem_toList.2 ha)) d

theorem Payload.isSound_toJson {p : Payload}
    (h : ∀ x ∈ p.doubles, isFiniteFloat x → ReadsBack x) (d : Nat) : p.toJson.isSound (d + 5) := by
  suffices hmembers : p.members.all (·.2.isSound (d + 4)) by
    simpa [toJson] using hmembers
  cases p with
  | connect l | pingReq l | forwardPingReq c l =>
    simp [members, Location.isSound_ofOption h]
  | subscribe t g | forwardSubscribe c t g =>
    simp [members, Topic.toJson, Geofence.isSound_toJson (g := g) h (d + 1)]
  | publish p =>
    simp [members, Publication.members, Topic.toJson, Geofence.isSound_toJson h (d + 1)]
  | forwardPublish p l =>
    obtain ⟨hp, hl⟩ := List.forall_mem_append.1 h
    simp [members, Publication.isSound_toJson hp, Location.isSound_ofOption hl]
  | disconnect r b =>
    have hb : (Json.ofOption BrokerInfo.toJson b).isSound (d + 4) :=
      Json.isSound_ofOption fun b _ => by simp [BrokerInfo.toJson]
    simp [members, ReasonCode.toJson, hb]
  | _ => simp [members, Topic.toJson, ReasonCode.toJson]

theorem Frame.isSound_toJson {f : Frame}
    (h : ∀ x ∈ f.doubles, isFiniteFloat x → ReadsBack x) (d : Nat) : f.toJson.isSound (d + 6) := by
  simp [toJson, Payload.isSound_toJson h]

/-! ## Reading -/

theorem Location.ofJson?_toJson {a : Location} (h : ∀ x ∈ a.doubles, ReadsBack x) :
    Location.ofJson? a.toJson = some a := by
  have hfields : a.toJson.fields? ["lat", "lon"] 0
      = some [some (.float a.lat), some (.float a.lon)] :=
    Json.fields?_ofMembers 0 rfl (by decide)
  have hlat := (h a.lat (by simp [doubles])).float?
  have hlon := (h a.lon (by simp [doubles])).float?
  simp [ofJson?, hfields, hlat, hlon]

theorem Location.nullable_toJson {l : Option Location}
    (h : ∀ x ∈ l.toList.flatMap Location.doubles, ReadsBack x) :
    Json.nullable Location.ofJson? (some (.ofOption Location.toJson l)) = some l := by
  have hl := List.forall_mem_flatMap.1 h
  exact Json.nullable_ofOption fun a ha => ⟨nofun, ofJson?_toJson (hl a (Option.mem_toList.2 ha))⟩

theorem Geofence.ofSound?_toJson (byPlace : Bool) {g : Geofence}
    (h : ∀ x ∈ g.doubles, ReadsBack x) : Geofence.ofSound? byPlace g.toJson = some g := by
  cases g with
  | circle center radius =>
    obtain ⟨hradius, hcenter⟩ := List.forall_mem_cons.1 h
    have htag : (circle center radius).toJson.variant? "shape" = some (.text "circle",
        .ofMembers [("center", center.toJson), ("radius", .float radius)]) :=
      Json.variant?_ofMembers _ (by simp)
    have hfields : (Json.ofMembers [("center", center.toJson), ("radius", .float radius)]).fields?
        ["center", "radius"] 0 = some [some center.toJson, some (.float radius)] :=
      Json.fields?_ofMembers 0 rfl (by decide)
    simp [ofSound?, htag, shape?, Json.text, hfields, Json.required,
      Location.ofJson?_toJson hcenter, hradius.float?]
  | polygon vertices =>
    have hvertices := List.forall_mem_flatMap.1 h
    have htag : (polygon vertices).toJson.variant? "shape" = some (.text "polygon",
        .ofMembers [("vertices", .array (vertices.map Location.toJson))]) :=
      Json.variant?_ofMembers _ (by simp)
    have hfields : (Json.ofMembers [("vertices", .array (vertices.map Location.toJson))]).fields?
        ["vertices"] 0 = some [some (.array (vertices.map Location.toJson))] :=
      Json.fields?_ofMembers 0 rfl (by decide)
    have hall : (vertices.map Location.toJson).mapM Location.ofJson? = some vertices := by
      rw [List.mapM_map]
      exact (Json.mapM_eq_some (g := id) fun a ha => Location.ofJson?_toJson (hvertices a ha)).trans
        (congrArg some (List.map_id _))
    simp [ofSound?, htag, shape?, Json.text, hfields, Json.array?, hall]
  | undefined => rfl

theorem Topic.ofJson?_toJson (t : Topic) : Topic.ofJson? t.toJson = some t := rfl

theorem Publication.ofSound?_members {p : Publication} (h : ∀ x ∈ p.doubles, ReadsBack x) :
    Publication.ofSound? (.ofMembers p.members) = some p := by
  have hfields : (Json.ofMembers p.members).fields? ["topic", "geofence", "content"] 0
      = some [some p.topic.toJson, some p.geofence.toJson, some (.text p.content)] :=
    Json.fields?_ofMembers 0 rfl (by decide)
  simp [ofSound?, hfields, Geofence.ofSound?_toJson true h, Topic.ofJson?_toJson]

theorem BrokerInfo.ofJson?_toJson (b : BrokerInfo) : BrokerInfo.ofJson? b.toJson = some b := by
  have hfields : b.toJson.fields? ["broker_id", "address"] 0
      = some [some (.text b.id), some (.text b.address)] :=
    Json.fields?_ofMembers 0 rfl (by decide)
  simp [ofJson?, hfields]

theorem ReasonCode.ofJson?_toJson (r : ReasonCode) : ReasonCode.ofJson? r.toJson = some r := by
  cases r <;> rfl

namespace Payload

theorem kindOf?_tagOf (k : PayloadKind) : kindOf? (tagOf k) = some k := by
  cases k <;> decide

theorem readLocation?_ofMembers {l : Option Location}
    (h : ∀ x ∈ l.toList.flatMap Location.doubles, ReadsBack x) :
    readLocation? (.ofMembers [("location", .ofOption Location.toJson l)]) = some l := by
  have hfields : (Json.ofMembers [("location", .ofOption Location.toJson l)]).fields?
      ["location"] 0 = some [some (.ofOption Location.toJson l)] :=
    Json.fields?_ofMembers 0 rfl (by decide)
  simp [readLocation?, hfields, Location.nullable_toJson h]

theorem readReason?_ofMembers (r : ReasonCode) :
    readReason? (.ofMembers [("reason_code", r.toJson)]) = some r := by
  have hfields : (Json.ofMembers [("reason_code", r.toJson)]).fields? ["reason_code"] 0
      = some [some r.toJson] :=
    Json.fields?_ofMembers 0 rfl (by decide)
  simp [readReason?, hfields, ReasonCode.ofJson?_toJson]

theorem ofBody?_members {p : Payload} (h : ∀ x ∈ p.doubles, ReadsBack x) :
    ofBody? (.ofMembers p.members) p.kind = some p := by
  have hfields (names : List String) (hnames : p.members.map Prod.fst = names)
      (hnodup : names.Nodup) := Json.fields?_ofMembers 0 hnames hnodup
  cases p with
  | connect l | pingReq l => simp [ofBody?, kind, members, readLocation?_ofMembers h]
  | connAck r | pingResp r | subAck r | unsubAck r | pubAck r =>
    simp [ofBody?, kind, members, readReason?_ofMembers]
  | publish p => simp [ofBody?, kind, members, Publication.ofSound?_members h]
  | disconnect r b =>
    have hb : Json.nullable BrokerInfo.ofJson? (some (.ofOption BrokerInfo.toJson b)) = some b :=
      Json.nullable_ofOption fun b _ => ⟨nofun, BrokerInfo.ofJson?_toJson b⟩
    simp only [ofBody?, kind, hfields ["reason_code", "broker_info"] rfl (by decide)]
    simp [members, ReasonCode.ofJson?_toJson, hb]
  | subscribe t g =>
    simp only [ofBody?, kind, hfields ["topic", "geofence"] rfl (by decide)]
    simp [members, Topic.ofJson?_toJson, Geofence.ofSound?_toJson true h]
  | unsubscribe t =>
    simp only [ofBody?, kind, hfields ["topic"] rfl (by decide)]
    simp [members, Topic.ofJson?_toJson]
  | forwardPublish p l =>
    obtain ⟨hp, hl⟩ := List.forall_mem_append.1 h
    simp only [ofBody?, kind,
      hfields ["publish", "publisher_location"] rfl (by decide)]
    simp [members, Publication.toJson, Publication.ofSound?_members hp, Location.nullable_toJson hl]
  | forwardSubscribe c t g =>
    simp only [ofBody?, kind, hfields ["client_id", "topic", "geofence"] rfl (by decide)]
    simp [members, Topic.ofJson?_toJson, Geofence.ofSound?_toJson true h]
  | forwardUnsubscribe c t =>
    simp only [ofBody?, kind, hfields ["client_id", "topic"] rfl (by decide)]
    simp [members, Topic.ofJson?_toJson]
  | forwardDisconnect c r =>
    simp only [ofBody?, kind, hfields ["client_id", "reason_code"] rfl (by decide)]
    simp [members, ReasonCode.ofJson?_toJson]
  | forwardPingReq c l =>
    simp only [ofBody?, kind, hfields ["client_id", "location"] rfl (by decide)]
    simp [members, Location.nullable_toJson h]

theorem ofSound?_toJson {p : Payload} (h : ∀ x ∈ p.doubles, ReadsBack x) :
    ofSound? p.toJson = some p := by
  have htag : p.toJson.variant? "type" = some (.text (tagOf p.kind), .ofMembers p.members) :=
    Json.variant?_ofMembers _ (by cases p <;> simp [members, Publication.members])
  simp [ofSound?, htag, kindOf?_tagOf, ofBody?_members h]

/-- A payload that lies in few enough arrays and objects is read back. -/
theorem ofJson?_toJson {p : Payload} (outer : Nat) (h : ∀ x ∈ p.doubles, ReadsBack x)
    (houter : outer + 5 ≤ nestingLimit) : ofJson? outer p.toJson = some p := by
  obtain ⟨d, hd⟩ := Nat.exists_eq_add_of_le houter
  have hsound : p.toJson.isSound (nestingLimit - outer) := by
    rw [show nestingLimit - outer = d + 5 by omega]
    exact isSound_toJson (fun x hx _ => h x hx) d
  rw [ofJson?, if_pos hsound, ofSound?_toJson h]

end Payload

namespace Frame

theorem ofJson?_toJson {f : Frame} (h : ∀ x ∈ f.doubles, ReadsBack x) :
    ofJson? f.toJson = some f := by
  have hfields : f.toJson.fields? ["sender", "payload"] 0
      = some [some (.text f.sender), some f.payload.toJson] :=
    Json.fields?_ofMembers 0 rfl (by decide)
  simp [ofJson?, hfields, Payload.ofJson?_toJson 1 h (by decide)]

theorem decode?_encode {f : Frame} (h : ∀ x ∈ f.doubles, ReadsBack x) :
    decode? f.encode = some f := by
  unfold decode? encode
  rw [Json.parse_render (isSound_toJson (fun x hx _ => h x hx) 0)]
  exact ofJson?_toJson h

/-- If the finite doubles in a frame come back when they are written and read, then a frame with
only such doubles comes back, and so does every frame that was read from a text, in whatever
spelling. -/
theorem roundTrip (f : Frame) (h : ∀ x ∈ f.doubles, isFiniteFloat x → ReadsBack x) :
    ((∀ x ∈ f.doubles, isFiniteFloat x) → decode? f.encode = some f) ∧
      ∀ text, decode? text = some f → decode? f.encode = some f := by
  have hfinite (hall : ∀ x ∈ f.doubles, isFiniteFloat x) : decode? f.encode = some f :=
    decode?_encode fun x hx => h x hx (hall x hx)
  exact ⟨hfinite, fun text ht => hfinite (decode?_finite text f ht)⟩

/-- A forwarded publication with an escape of each kind, characters beyond the first plane and
doubles of every form. -/
def note : Frame where
  sender := "cl\u00e9 \"7\"\n"
  payload := .forwardPublish
    ⟨⟨"n\\a\x01b\u007f/😀"⟩, .polygon [⟨52.5, 13.25⟩, ⟨-0.0, 1e22⟩, ⟨5e-5, 1.5e3⟩], "\t𝔘"⟩
    (some ⟨0.1, -1e-7⟩)

/-- A refusal, and a text of it that no frame is written as. -/
def refusal : Frame := ⟨"a\"", .disconnect .wrongBroker none⟩

def refusalText : String :=
  " [\"a\\u0022\", [\"disconnect\", \x7b\"WrongBroker\": null\x7d, null] ]"

theorem decode?_refusalText : decode? refusalText = some refusal := by
  have hparse : Json.parse refusalText = some (.array [.text "a\"",
      .array [.text "disconnect", .ofMembers [("WrongBroker", .null)], .null]]) := by cbv
  unfold decode?
  rw [hparse]
  rfl

theorem note_refusal_roundTrip : decode? note.encode = some note ∧
    decode? refusalText = some refusal ∧ decode? refusal.encode = some refusal :=
  ⟨(roundTrip note fun x hx _ => (by decide +kernel : ∀ x ∈ note.doubles, ReadsBack x) x hx).1
      (by decide +kernel),
    decode?_refusalText, (roundTrip refusal nofun).2 refusalText decode?_refusalText⟩

end Frame

end Geocast
