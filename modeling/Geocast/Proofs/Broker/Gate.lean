import Geocast.Proofs.Broker.InCharge
import Geocast.Proofs.Geofence.Exact

/-! # Publications that do not reach the own area

A broker looks for subscribers of a publication only if the geofence of the publication intersects
the own area. All clients of a regular broker are in that area, so a client that is missed by this
would lie in two geofences that do not intersect. With exact numbers there is none; a client can be
missed because of rounding only (`missed_by_rounding`). -/

namespace Geocast

/-- Rounding makes no difference to how the two geofences and the location lie to each other. -/
structure Geofence.DecidesExactly (g h : Geofence) (l : Location) : Prop where
  left : g.LocatesExactly l
  right : h.LocatesExactly l
  both : g.ComparesExactly h

instance (g h : Geofence) (l : Location) : Decidable (g.DecidesExactly h l) :=
  decidable_of_iff (_ ∧ _ ∧ _)
    ⟨fun ⟨h1, h2, h3⟩ => ⟨h1, h2, h3⟩, fun H => ⟨H.left, H.right, H.both⟩⟩

theorem Geofence.DecidesExactly.intersects {g h : Geofence} {l : Location}
    (H : g.DecidesExactly h l) (hg : g.contains l) (hh : h.contains l) : g.intersects h :=
  intersects_of_holds H.both (not_isDegenerate_of_contains hg) (not_isDegenerate_of_contains hh)
    (holds_of_contains H.left hg) (holds_of_contains H.right hh)

namespace Broker

variable {b : Broker} {c : String} {l : Location} {p : Publication}

/-- A client that is missed is in the own area and in the geofence, and rounding hides this. -/
theorem InCharge.missed (H : InCharge b) (hroot : b.atlas.own.root = false)
    (hreach : b.atlas.reaches p.geofence = false) (hc : c ∈ b.subscribers l p) :
    ∃ l', b.roster.location? c = some l' ∧ b.atlas.own.area.contains l' ∧
      p.geofence.contains l' ∧ ¬ b.atlas.own.area.DecidesExactly p.geofence l' := by
  obtain ⟨-, l', hl', hp⟩ := mem_subscribers_iff_get?.1 hc
  obtain ⟨record, hrecord, hlocation⟩ := Option.bind_eq_some_iff.1 hl'
  obtain ⟨l'', hsame, harea⟩ := (Atlas.isResponsibleFor_of_regular hroot).1 (H c record hrecord)
  obtain rfl : l' = l'' := Option.some.inj (hlocation.symm.trans hsame)
  refine ⟨l', hl', harea, hp, fun hexact => ?_⟩
  exact Bool.false_ne_true (hreach.symm.trans (hexact.intersects harea hp))

/-- Two geofences that contain the same location intersect, unless rounding makes a difference to
one of the comparisons of numbers behind this. A regular broker that began without clients looks for
subscribers only of publications that reach its area. Of one that does not, those it would find are
clients in the own area and in the geofence, and rounding hides that these two intersect. So if
rounding makes no difference at the places where its clients are, then there are none, and to look
for subscribers of every publication would deliver the same. -/
theorem missed_by_rounding (atlas : Atlas) (policy : ForwardingPolicy) (frames : List Frame)
    (hroot : atlas.own.root = false) (l : Location) (p : Publication) :
    let b := (start atlas policy).after frames
    (∀ (g h : Geofence) (l : Location), g.DecidesExactly h l → g.contains l → h.contains l →
      g.intersects h) ∧
    (atlas.reaches p.geofence = false → ∀ c ∈ b.subscribers l p,
      ∃ l', b.roster.location? c = some l' ∧ atlas.own.area.contains l' ∧
        p.geofence.contains l' ∧ ¬ atlas.own.area.DecidesExactly p.geofence l') ∧
    ((∀ c l', b.roster.location? c = some l' → atlas.own.area.DecidesExactly p.geofence l') →
      (atlas.reaches p.geofence = false → b.deliveries l p = .empty) ∧
        b.delivered l p = b.deliveries l p) := by
  intro b
  have hatlas : b.atlas = atlas := atlas_after ..
  have H : InCharge b :=
    after_keeps (fun h H => H.change h) frames (inCharge_start atlas policy)
  clear_value b
  subst hatlas
  refine ⟨fun g h l H => H.intersects, fun hreach c hc => H.missed hroot hreach hc,
    fun hexact => ?_⟩
  have hnobody (hreach : b.atlas.reaches p.geofence = false) : b.deliveries l p = .empty := by
    have hnone : b.subscribers l p = [] := by
      refine List.eq_nil_iff_forall_not_mem.2 fun c hc => ?_
      obtain ⟨l', hl', -, -, hinexact⟩ := H.missed hroot hreach hc
      exact hinexact (hexact c l' hl')
    simp [deliveries, hnone, Dispatch.empty]
  refine ⟨hnobody, ?_⟩
  unfold delivered
  cases hreach : b.atlas.reaches p.geofence with
  | true => rfl
  | false => exact (hnobody hreach).symm

/-- A rectangle that adjoins another one to the east intersects it, as a location on the common side
tells; and nobody in the city is missed when a jam in a district east of the city is reported. -/
theorem adjoining_intersect :
    (Geofence.rectangle ⟨0, 0⟩ ⟨40, 10⟩).intersects (.rectangle ⟨10, 10⟩ ⟨20, 20⟩) ∧
    let b := ofCity.after
      [⟨"car", .connect (some ⟨52.5, 13.5⟩)⟩, ⟨"car", .subscribe ⟨"jams"⟩ .world⟩]
    let jam : Publication := ⟨⟨"jams"⟩, .rectangle ⟨52.25, 14.5⟩ ⟨52.75, 15⟩, "A12"⟩
    ofCity.atlas.reaches jam.geofence = false ∧ b.deliveries ⟨52.5, 14.5⟩ jam = .empty := by
  let b := ofCity.after
    [⟨"car", .connect (some ⟨52.5, 13.5⟩)⟩, ⟨"car", .subscribe ⟨"jams"⟩ .world⟩]
  let jam : Publication := ⟨⟨"jams"⟩, .rectangle ⟨52.25, 14.5⟩ ⟨52.75, 15⟩, "A12"⟩
  have hreach : ofCity.atlas.reaches jam.geofence = false := by decide +kernel
  have hclients : ∀ entry ∈ b.roster.clients.entries, ∀ l ∈ entry.2.location,
      ofCity.atlas.own.area.DecidesExactly jam.geofence l := by decide +kernel
  have hexact (c : String) (l : Location) (h : b.roster.location? c = some l) :
      ofCity.atlas.own.area.DecidesExactly jam.geofence l := by
    obtain ⟨record, hrecord, hl⟩ := Option.bind_eq_some_iff.1 h
    exact hclients (c, record) (Table.mem_entries_iff.2 hrecord) l hl
  obtain ⟨hgeofences, -, hbroker⟩ :=
    missed_by_rounding ofCity.atlas .forwardAll _ rfl ⟨52.5, 14.5⟩ jam
  exact ⟨hgeofences _ _ ⟨15, 10⟩ (by decide +kernel) (by decide +kernel) (by decide +kernel),
    hreach, (hbroker hexact).1 hreach⟩

/-- Two rectangles that adjoin each other, and a location on the common side. In doubles the ends of
the shorter side come out beside the longer one, so the rectangles are not found to intersect, and
the broker of the one misses its client on the common side when something is published within the
other. -/
theorem adjoining_missed :
    let west := Geofence.rectangle ⟨0, 0⟩ ⟨41, 10⟩
    let east := Geofence.rectangle ⟨7, 10⟩ ⟨23, 20⟩
    (west.contains ⟨15, 10⟩ ∧ east.contains ⟨15, 10⟩ ∧ ¬ west.intersects east) ∧
    let b := (start (.standalone ⟨⟨"west", "127.0.0.1:6001"⟩, west, false⟩) .forwardAll).after
      [⟨"sub", .connect (some ⟨15, 10⟩)⟩, ⟨"sub", .subscribe ⟨"t"⟩ .world⟩]
    b.atlas.reaches east = false ∧ b.subscribers ⟨20, 5⟩ ⟨⟨"t"⟩, east, "x"⟩ = ["sub"] := by
  decide +kernel

end Broker

end Geocast
