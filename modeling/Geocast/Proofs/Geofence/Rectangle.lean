import Geocast.Geofence.Basic
import Geocast.Proofs.Geofence.Outline
import Geocast.Proofs.Hypotenuse

/-! # Rectangles

Which points a rectangle contains, in doubles. A ray finds the inside with the southern and the
western side (`Spans.surrounds_iff`). The northern and the eastern side are left to the distance
from the edges, and it depends on how the nearest point of the side is rounded whether a point of
them is found (`Edge.distance_level_le`, `Edge.distance_upright_le`). -/

namespace Geocast

variable {sw ne p a b : Location} {x y z t : Float}

namespace Edge

/-! ## Crossing the sides -/

/-- An edge along a parallel is not crossed. -/
theorem crossedFrom_level (h : a.lat = b.lat) : crossedFrom p (a, b) = false := by
  simp only [crossedFrom, h, bne_self_eq_false, Bool.false_and]

/-- An edge along a meridian is crossed at its longitude, or nowhere if the share of the edge up to
the ray is not finite. -/
theorem crossedFrom_upright (h : a.lon = b.lon) (ha : isFiniteFloat a.lon)
    (hp : isFiniteFloat p.lon) : crossedFrom p (a, b) ↔ ¬ (p.lat < a.lat ↔ p.lat < b.lat) ∧
      p.lon < a.lon ∧ isFiniteFloat ((p.lat - a.lat) / (b.lat - a.lat)) := by
  have hzero : Float.IsZero (b.lon - a.lon) := Float.isZero_sub (h ▸ ha) ha (by rw [h])
  simp only [crossedFrom, Bool.and_eq_true, bne_iff_ne, ne_eq, decide_eq_decide, decide_eq_true_eq]
  refine and_congr Iff.rfl ?_
  generalize (p.lat - a.lat) / (b.lat - a.lat) = q
  by_cases hq : isFiniteFloat q
  · obtain ⟨hfinite, hquanta⟩ := Float.add_isZero ha (Float.isZero_mul hq hzero)
    rw [Float.lt_iff hp hfinite, hquanta, ← Float.lt_iff hp ha, and_iff_left hq]
  · have hnan := Float.isNaN_add (x := a.lon) (Float.isNaN_mul hq hzero)
    exact ⟨fun hlt => absurd hlt (Float.not_lt_of_isNaN hnan), fun h => absurd h.2 hq⟩

/-! ## The nearest point of a side -/

theorem clampUnit_cases (t : Float) : isFiniteFloat (clampUnit t) ∨ (clampUnit t).isNaN := by
  unfold clampUnit
  split
  · exact .inl (by decide +kernel)
  split
  · exact .inl (by decide +kernel)
  next hlow hhigh =>
  rw [Float.isFinite_iff_unpack, Float.isNaN_iff]
  cases ht : t.toModel.unpack with
  | zero s => exact .inl (.inl ⟨s, rfl⟩)
  | finite s m e hm => exact .inl (.inr ⟨s, m, e, hm, rfl⟩)
  | notANumber => exact .inr rfl
  | infinity s =>
    cases s with
    | negative =>
      rw [Float.lt_def, ht] at hlow
      exact absurd rfl hlow
    | positive =>
      rw [gt_iff_lt, Float.lt_def, ht] at hhigh
      exact absurd rfl hhigh

/-- Which share of an edge lies before the point of it that is nearest to `p`. -/
def share (p : Location) (e : Edge) : Float :=
  let (a, b) := e
  let dx := b.lon - a.lon
  let dy := b.lat - a.lat
  clampUnit (((p.lon - a.lon) * dx + (p.lat - a.lat) * dy) / (dx * dx + dy * dy))

/-- The point of an edge that is nearest to `p`, as it is rounded. -/
def foot (p : Location) (e : Edge) : Location :=
  let (a, b) := e
  let dx := b.lon - a.lon
  let dy := b.lat - a.lat
  if dx * dx + dy * dy == 0 then a else ⟨a.lat + share p e * dy, a.lon + share p e * dx⟩

theorem distance_eq (p : Location) (e : Edge) : distance p e = p.distance (foot p e) := by
  unfold distance foot
  dsimp only
  split <;> rfl

theorem foot_cases (p a b : Location) : foot p (a, b) = a ∨ ∃ t,
    (isFiniteFloat t ∨ t.isNaN) ∧
      foot p (a, b) = ⟨a.lat + t * (b.lat - a.lat), a.lon + t * (b.lon - a.lon)⟩ := by
  unfold foot
  dsimp only
  split
  · exact .inl rfl
  · exact .inr ⟨share p (a, b), clampUnit_cases _, rfl⟩

/-- Across an edge nothing is added to a coordinate, unless the share is NaN. Then so is every
difference from the nearest point. -/
theorem offset_cases (hx : isFiniteFloat x) (hy : isFiniteFloat y)
    (hxy : Float.quanta x = Float.quanta y) (hz : Float.IsZero z)
    (ht : isFiniteFloat t ∨ t.isNaN) (x' y' z' : Float) :
    Float.IsZero (x - (y + t * z)) ∨ (x - (y + t * z)).isNaN ∧ (x' - (y' + t * z')).isNaN := by
  have hnan (x y z : Float) (ht : t.isNaN) : (x - (y + t * z)).isNaN :=
    Float.isNaN_sub (Float.isNaN_add (Float.isNaN_mul_left ht))
  rcases ht with ht | ht
  · obtain ⟨hfinite, hquanta⟩ := Float.add_isZero hy (Float.isZero_mul ht hz)
    exact .inl (Float.isZero_sub hx hfinite (hxy.trans hquanta.symm))
  · exact .inr ⟨hnan x y z ht, hnan x' y' z' ht⟩

/-- The distance of a point from an edge along its parallel is what rounding leaves of the
difference of longitudes. -/
theorem distance_level_le (h : a.lat = b.lat) (ha : isFiniteFloat a.lat) (hp : isFiniteFloat p.lat)
    (hpa : p.lat == a.lat) :
    distance p (a, b) ≤ t ↔ (p.lon - (foot p (a, b)).lon).abs ≤ t := by
  rw [Float.beq_iff hp ha] at hpa
  rw [distance_eq]
  refine (hypotenuse_le_iff ?_).1
  rcases foot_cases p a b with hfoot | ⟨t, ht, hfoot⟩ <;> rw [hfoot]
  · exact .inl (Float.isZero_sub hp ha hpa)
  · exact offset_cases hp ha hpa (Float.isZero_sub (h ▸ ha) ha (by rw [h])) ht ..

/-- The distance of a point from an edge along its meridian is what rounding leaves of the
difference of latitudes. -/
theorem distance_upright_le (h : a.lon = b.lon) (ha : isFiniteFloat a.lon)
    (hp : isFiniteFloat p.lon) (hpa : p.lon == a.lon) :
    distance p (a, b) ≤ t ↔ (p.lat - (foot p (a, b)).lat).abs ≤ t := by
  rw [Float.beq_iff hp ha] at hpa
  rw [distance_eq]
  refine (hypotenuse_le_iff ?_).2
  rcases foot_cases p a b with hfoot | ⟨t, ht, hfoot⟩ <;> rw [hfoot]
  · exact .inl (Float.isZero_sub hp ha hpa)
  · exact offset_cases hp ha hpa (Float.isZero_sub (h ▸ ha) ha (by rw [h])) ht ..

end Edge

/-! ## Locations in a rectangle -/

/-- The corners of a rectangle, from the south-western one counterclockwise. -/
def corners (sw ne : Location) : Ring := [sw, ⟨sw.lat, ne.lon⟩, ne, ⟨ne.lat, sw.lon⟩]

/-- A location in a rectangle with finite corners, on its sides or inside. -/
structure Spans (sw ne p : Location) : Prop where
  finite_sw : sw.isFinite
  finite_ne : ne.isFinite
  south : sw.lat ≤ p.lat
  north : p.lat ≤ ne.lat
  west : sw.lon ≤ p.lon
  east : p.lon ≤ ne.lon

instance (sw ne p : Location) : Decidable (Spans sw ne p) :=
  decidable_of_iff (_ ∧ _ ∧ _ ∧ _ ∧ _ ∧ _)
    ⟨fun ⟨h1, h2, h3, h4, h5, h6⟩ => ⟨h1, h2, h3, h4, h5, h6⟩,
      fun h => ⟨h.finite_sw, h.finite_ne, h.south, h.north, h.west, h.east⟩⟩

theorem Location.isFinite_iff_lat_lon {l : Location} :
    l.isFinite ↔ isFiniteFloat l.lat ∧ isFiniteFloat l.lon :=
  Bool.and_eq_true_iff

namespace Spans

theorem finite (H : Spans sw ne p) : p.isFinite := by
  obtain ⟨hlat, hlon⟩ := Location.isFinite_iff_lat_lon.1 H.finite_sw
  obtain ⟨hlat', hlon'⟩ := Location.isFinite_iff_lat_lon.1 H.finite_ne
  exact Location.isFinite_iff_lat_lon.2 ⟨Float.finite_of_between hlat hlat' H.south H.north,
    Float.finite_of_between hlon hlon' H.west H.east⟩

/-- What is surrounded is the inside with the southern and the western side, as far as latitudes
above the southern side do not overflow. -/
theorem surrounds_iff (H : Spans sw ne p) : (corners sw ne).surrounds p ↔
    p.lat < ne.lat ∧ p.lon < ne.lon ∧ isFiniteFloat (p.lat - sw.lat) := by
  obtain ⟨hswlat, hswlon⟩ := Location.isFinite_iff_lat_lon.1 H.finite_sw
  obtain ⟨hnelat, hnelon⟩ := Location.isFinite_iff_lat_lon.1 H.finite_ne
  obtain ⟨hlat, hlon⟩ := Location.isFinite_iff_lat_lon.1 H.finite
  have hsouth := (Float.le_iff hswlat hlat).1 H.south
  have hnorth := (Float.le_iff hlat hnelat).1 H.north
  have hwest := (Float.le_iff hswlon hlon).1 H.west
  have habove : ¬ p.lat < sw.lat := by
    rw [Float.lt_iff hlat hswlat]
    omega
  have hsouthern : Edge.crossedFrom p (sw, ⟨sw.lat, ne.lon⟩) = false := Edge.crossedFrom_level rfl
  have hnorthern : Edge.crossedFrom p (ne, ⟨ne.lat, sw.lon⟩) = false := Edge.crossedFrom_level rfl
  have hwestern : Edge.crossedFrom p (⟨ne.lat, sw.lon⟩, sw) = false := by
    have hcrossed := Edge.crossedFrom_upright (a := ⟨ne.lat, sw.lon⟩) (b := sw) rfl hswlon hlon
    rw [Bool.eq_false_iff, ne_eq, hcrossed, Float.lt_iff hlon hswlon]
    omega
  have heastern : Edge.crossedFrom p (⟨sw.lat, ne.lon⟩, ne) ↔
      p.lat < ne.lat ∧ p.lon < ne.lon ∧ isFiniteFloat (p.lat - sw.lat) := by
    refine (Edge.crossedFrom_upright (a := ⟨sw.lat, ne.lon⟩) (b := ne) rfl hnelon hlon).trans ?_
    rw [iff_false_left habove, not_not]
    refine and_congr_right fun hbelow => and_congr_right fun _ => ?_
    have hbelow := (Float.lt_iff hlat hnelat).1 hbelow
    exact Float.isFinite_ratio hlat hswlat hnelat hsouth hnorth (hsouth.trans_lt hbelow)
  have hparity : (corners sw ne).surrounds p =
      parity (Edge.crossedFrom p) [(sw, ⟨sw.lat, ne.lon⟩), (⟨sw.lat, ne.lon⟩, ne),
        (ne, ⟨ne.lat, sw.lon⟩), (⟨ne.lat, sw.lon⟩, sw)] := rfl
  rw [hparity, parity_cons, parity_cons, parity_cons, parity_cons, hsouthern, hnorthern, hwestern,
    parity_nil, ← heastern]
  cases Edge.crossedFrom p (⟨sw.lat, ne.lon⟩, ne) <;> rfl

/-- Between the poles no difference of latitudes overflows. -/
theorem isFinite_sub (H : Spans sw ne p) (hsouth : -90 ≤ sw.lat) (hnorth : ne.lat ≤ 90) :
    isFiniteFloat (p.lat - sw.lat) := by
  have hsw := (Location.isFinite_iff_lat_lon.1 H.finite_sw).1
  have hne := (Location.isFinite_iff_lat_lon.1 H.finite_ne).1
  have hp := (Location.isFinite_iff_lat_lon.1 H.finite).1
  refine Float.isFinite_sub hp hsw (le_trans (unitOf_mono ?_)
    (show unitOf (Float.quanta 90 - Float.quanta (-90)).natAbs ≤ 970 by decide +kernel))
  have hlow := (Float.le_iff (by decide +kernel) hsw).1 hsouth
  have hhigh := (Float.le_iff hne (by decide +kernel)).1 hnorth
  have hswp := (Float.le_iff hsw hp).1 H.south
  have hpne := (Float.le_iff hp hne).1 H.north
  omega

end Spans

namespace Geofence

/-- The side of a rectangle from its north-eastern corner to the west. -/
def northSide (sw ne : Location) : Edge := (ne, ⟨ne.lat, sw.lon⟩)

/-- The side of a rectangle from its south-eastern corner to the north. -/
def eastSide (sw ne : Location) : Edge := (⟨sw.lat, ne.lon⟩, ne)

theorem rectangle_contains_iff : (rectangle sw ne).contains p ↔ (corners sw ne).surrounds p ∨
    ∃ e ∈ (corners sw ne).edges, Edge.distance p e ≤ Ring.tolerance := by
  have hcontains : (rectangle sw ne).contains p =
    ((corners sw ne).surrounds p || (corners sw ne).onBoundary p) := rfl
  simp only [hcontains, Bool.or_eq_true, Ring.onBoundary, List.any_eq_true, decide_eq_true_eq]

/-- The points that a rectangle misses are on its northern or its eastern side, or so far north of
the southern one that the difference overflows, and rounding puts the nearest point of each side
farther away than the tolerance. On the northern and the eastern side that depends on the one
coordinate along the side. Between the poles nothing overflows. -/
theorem rectangle_misses_iff (H : Spans sw ne p) :
    (¬ (rectangle sw ne).contains p ↔
      (p.lat == ne.lat ∨ p.lon == ne.lon ∨ ¬ isFiniteFloat (p.lat - sw.lat)) ∧
        ∀ e ∈ (corners sw ne).edges, ¬ Edge.distance p e ≤ Ring.tolerance) ∧
    (p.lat == ne.lat → (Edge.distance p (northSide sw ne) ≤ Ring.tolerance ↔
      (p.lon - (Edge.foot p (northSide sw ne)).lon).abs ≤ Ring.tolerance)) ∧
    (p.lon == ne.lon → (Edge.distance p (eastSide sw ne) ≤ Ring.tolerance ↔
      (p.lat - (Edge.foot p (eastSide sw ne)).lat).abs ≤ Ring.tolerance)) ∧
    (-90 ≤ sw.lat → ne.lat ≤ 90 → isFiniteFloat (p.lat - sw.lat)) := by
  obtain ⟨hnelat, hnelon⟩ := Location.isFinite_iff_lat_lon.1 H.finite_ne
  obtain ⟨hlat, hlon⟩ := Location.isFinite_iff_lat_lon.1 H.finite
  refine ⟨?_, fun hnorth => Edge.distance_level_le rfl hnelat hlat hnorth,
    fun heast => Edge.distance_upright_le rfl hnelon hlon heast, H.isFinite_sub⟩
  have hnorth := (Float.le_iff hlat hnelat).1 H.north
  have heast := (Float.le_iff hlon hnelon).1 H.east
  have hsides : ¬ (p.lat < ne.lat ∧ p.lon < ne.lon ∧ isFiniteFloat (p.lat - sw.lat)) ↔
      (p.lat == ne.lat ∨ p.lon == ne.lon ∨ ¬ isFiniteFloat (p.lat - sw.lat)) := by
    rw [Float.lt_iff hlat hnelat, Float.lt_iff hlon hnelon, Float.beq_iff hlat hnelat,
      Float.beq_iff hlon hnelon, not_and_or, not_and_or]
    exact or_congr (by omega) (or_congr (by omega) Iff.rfl)
  rw [rectangle_contains_iff, H.surrounds_iff, not_or, hsides]
  simp only [not_exists, not_and]

theorem city_has_north : (rectangle ⟨52, 13⟩ ⟨53, 14⟩).contains ⟨53, 13.5⟩ := by
  have H : Spans ⟨52, 13⟩ ⟨53, 14⟩ ⟨53, 13.5⟩ := by decide +kernel
  obtain ⟨hmisses, hnorth, -, -⟩ := rectangle_misses_iff H
  have hdistance := (hnorth (by decide +kernel)).2 (by decide +kernel)
  by_contra hnot
  exact (hmisses.1 hnot).2 (northSide ⟨52, 13⟩ ⟨53, 14⟩) (.tail _ (.tail _ (.head _))) hdistance

/-- The world has gaps on the antimeridian and at the north pole. -/
theorem world_misses :
    Spans ⟨-90, -180⟩ ⟨90, 180⟩ ⟨3, 180⟩ ∧ world.contains ⟨3, 180⟩ = false ∧
    Spans ⟨-90, -180⟩ ⟨90, 180⟩ ⟨90, 53⟩ ∧ world.contains ⟨90, 53⟩ = false ∧
    Spans ⟨-1.7e308, 0⟩ ⟨1.7e308, 1⟩ ⟨1e308, 0.5⟩ ∧
      (rectangle ⟨-1.7e308, 0⟩ ⟨1.7e308, 1⟩).contains ⟨1e308, 0.5⟩ = false := by
  decide +kernel

end Geofence

end Geocast
