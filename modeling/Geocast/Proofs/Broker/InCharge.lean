import Geocast.Proofs.Broker.Answer
import Geocast.Proofs.Broker.Responsibility

/-! # Where the clients of a broker are

A broker tests a location before it stores it, and only registering and reporting a location store
one. So it is responsible for the location in each of its records (`InCharge`), whatever it has
processed before: a regular broker holds records in its own area only, the root none in the area
of a regular peer. -/

namespace Geocast

namespace Broker

variable {b b' : Broker} {c y : String} {p : Payload} {record : ClientRecord}

/-- A record after a payload is a record from before, with the same location, or its location came
with the payload and was tested. -/
theorem Change.record?_location (H : Change b c p b') (h : b'.record? y = some record) :
    (∃ old, b.record? y = some old ∧ record.location = old.location) ∨
      (p = .connect record.location ∨ p = .pingReq record.location) ∧
        b.atlas.isResponsibleFor record.location := by
  by_cases hne : c = y
  · subst hne
    cases H with
    | idle => exact .inl ⟨record, h, rfl⟩
    | evicted =>
      rw [evict_record?, if_pos rfl] at h
      exact nomatch h
    | added hl hr =>
      obtain ⟨-, rfl⟩ := Roster.add?_eq_some.1 hr
      simp only [record?, Table.get?_insert, if_true, Option.some.injEq] at h
      exact h ▸ .inr ⟨.inl rfl, hl⟩
    | relocated hl hr =>
      obtain ⟨-, rfl⟩ := Roster.relocate?_eq_some.1 hr
      simp only [record?, Table.get?_modify, if_true, Option.map_eq_some_iff] at h
      obtain ⟨_, -, rfl⟩ := h
      exact .inr ⟨.inr rfl, hl⟩
    | subscribed hr =>
      simp only [subscribe, hr] at h
      obtain ⟨-, -, rfl⟩ := Roster.subscribe?_eq_some.1 hr
      simp only [record?, Table.get?_modify, if_true, Option.map_eq_some_iff] at h
      obtain ⟨old, hold, rfl⟩ := h
      exact .inl ⟨old, hold, rfl⟩
    | unsubscribed hr =>
      obtain ⟨-, rfl⟩ := Roster.unsubscribe?_eq_some.1 hr
      simp only [record?, Table.get?_modify, if_true, Option.map_eq_some_iff] at h
      obtain ⟨old, hold, rfl⟩ := h
      exact .inl ⟨old, hold, rfl⟩
  · exact .inl ⟨record, (H.record?_other hne).symm.trans h, rfl⟩

/-- The broker is responsible for the location in each of its records, a missing one included. -/
def InCharge (b : Broker) : Prop :=
  ∀ c record, b.record? c = some record → b.atlas.isResponsibleFor record.location

theorem inCharge_start (atlas : Atlas) (policy : ForwardingPolicy) :
    InCharge (start atlas policy) := nofun

theorem InCharge.change (H : InCharge b) (h : Change b c p b') : InCharge b' := by
  intro y record hrecord
  rw [h.atlas]
  rcases h.record?_location hrecord with ⟨old, hold, hl⟩ | ⟨-, hl⟩
  · exact hl ▸ H y old hold
  · exact hl

end Broker

/-! ## What being responsible means -/

namespace Atlas

variable {a : Atlas} {l : Option Location}

theorem isResponsibleFor_of_regular (hroot : a.own.root = false) :
    a.isResponsibleFor l ↔ ∃ p, l = some p ∧ a.own.area.contains p := by
  simp only [isResponsibleFor, hroot, Bool.false_eq_true, if_false, Option.any_eq_true]

theorem isResponsibleFor_of_root (hroot : a.own.root = true) :
    a.isResponsibleFor l ↔
      ∀ p, l = some p → ∀ o ∈ a.others, o.root = false → o.area.contains p = false := by
  cases l with
  | none => simp [isResponsibleFor, hroot]
  | some p => simp [isResponsibleFor, hroot, BrokerArea.covers]

end Atlas

/-- After every run of a broker that begins without clients, the broker is responsible for the
location in each record, be it missing or not: a regular broker knows the location of all of its
clients, and it lies in the own area; at the root none lies in the area of a regular peer. -/
theorem Broker.records_in_charge (atlas : Atlas) (policy : ForwardingPolicy)
    (frames : List Frame) (c : String) (record : ClientRecord)
    (h : ((start atlas policy).after frames).record? c = some record) :
    atlas.isResponsibleFor record.location ∧
    (atlas.own.root = false → ∃ p, record.location = some p ∧ atlas.own.area.contains p) ∧
    (atlas.own.root = true → ∀ p, record.location = some p →
      ∀ o ∈ atlas.others, o.root = false → o.area.contains p = false) := by
  have H : InCharge ((start atlas policy).after frames) :=
    after_keeps (fun h H => H.change h) frames (inCharge_start atlas policy)
  have hl : atlas.isResponsibleFor record.location := by
    have := H c record h
    rwa [atlas_after] at this
  exact ⟨hl, fun hroot => (Atlas.isResponsibleFor_of_regular hroot).1 hl,
    fun hroot => (Atlas.isResponsibleFor_of_root hroot).1 hl⟩

/-- The broker of the city after a car registered and drove on. -/
def Broker.cityDrive : Broker :=
  ofCity.after
    [⟨"car", .connect (some ⟨52.5, 13.4⟩)⟩, ⟨"car", .pingReq (some ⟨52.25, 13.75⟩)⟩,
      ⟨"ship", .connect (some ⟨40, -30⟩)⟩, ⟨"car", .subscribe ⟨"jams"⟩ .world⟩]

/-- The car is known to be in the city. -/
theorem Broker.cityDrive_in_charge :
    ∃ record, cityDrive.record? "car" = some record ∧ ∃ p, record.location = some p ∧
      (Geofence.rectangle ⟨52, 13⟩ ⟨53, 14⟩).contains p := by
  obtain ⟨record, h⟩ := Option.isSome_iff_exists.1
    (show (cityDrive.record? "car").isSome by decide +kernel)
  exact ⟨record, h, (records_in_charge _ _ _ "car" record h).2.1 rfl⟩

end Geocast
