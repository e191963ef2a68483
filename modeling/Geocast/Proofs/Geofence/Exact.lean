import Geocast.Geofence.Basic
import Geocast.Proofs.Geofence.Outline

/-! # Geofences with exact numbers

Whether a geofence contains a location and whether two geofences share a point is worked out in
doubles, by two unlike tests. `Geofence.Holds` is the region that a geofence describes, in exact
numbers. `Geofence.LocatesExactly` and `Geofence.ComparesExactly` say that rounding makes no
difference to the single comparisons of numbers that the tests are made of. Then the tests agree:
what a geofence contains is in its region (`Geofence.holds_of_contains`), and geofences whose
regions have a point in common intersect (`Geofence.intersects_of_holds`). -/

namespace Geocast

open Plane (Within foot)

/-! ## Exact values -/

def Binary.value (x : Binary) : ℚ :=
  (x.mantissa * power 2 x.exponent : Nat) / (power 2 (-x.exponent) : Nat)

/-- The number that a finite double stands for. -/
def valueOf (x : Float) : ℚ :=
  if signBit x then -(Binary.ofFloat x).value else (Binary.ofFloat x).value

def Location.point (a : Location) : Point := (valueOf a.lon, valueOf a.lat)

/-! ## Edges -/

namespace Edge

variable {e f : Edge} {p : Location}

/-- The ends of an edge. -/
def points (e : Edge) : Point × Point := (e.1.point, e.2.point)

/-- What holds of the edge and `p` with exact numbers the tests in doubles find: whether a ray from
`p` crosses the edge, on which side of it `p` lies, and that `p` is a point of it. -/
structure Sees (e : Edge) (p : Location) : Prop where
  crossed : e.crossedFrom p = Plane.crossedFrom p.point e.points
  left : 0 < Plane.side e.points p.point → e.side p > 0
  right : Plane.side e.points p.point < 0 → e.side p < 0
  touching : foot p.point e.points = p.point → e.touches p

instance (e : Edge) (p : Location) : Decidable (e.Sees p) :=
  decidable_of_iff (_ ∧ _ ∧ _ ∧ _)
    ⟨fun ⟨h1, h2, h3, h4⟩ => ⟨h1, h2, h3, h4⟩, fun h => ⟨h.crossed, h.left, h.right, h.touching⟩⟩

theorem Sees.touches (h : e.Sees p) (hp : p.point ∈ segment ℚ e.points.1 e.points.2) :
    e.touches p :=
  h.touching (Plane.foot_eq_iff.2 hp)

theorem opposite_of_sees {q : Location} (hp : e.Sees p) (hq : e.Sees q)
    (h : Plane.Opposite (Plane.side e.points p.point) (Plane.side e.points q.point)) :
    opposite (e.side p) (e.side q) := by
  simp only [opposite, Bool.or_eq_true, Bool.and_eq_true, decide_eq_true_eq]
  exact h.imp (fun h => ⟨hp.left h.1, hq.right h.2⟩) fun h => ⟨hp.right h.1, hq.left h.2⟩

/-- Edges with a common point meet. -/
theorem meets_of_sees (he1 : f.Sees e.1) (he2 : f.Sees e.2) (hf1 : e.Sees f.1) (hf2 : e.Sees f.2)
    (h : ¬ Disjoint (segment ℚ e.points.1 e.points.2) (segment ℚ f.points.1 f.points.2)) :
    e.meets f := by
  obtain ⟨w, hwe, hwf⟩ := Set.not_disjoint_iff.1 h
  simp only [meets, Bool.or_eq_true, Bool.and_eq_true]
  rcases Plane.cross_or_touch hwe hwf with ⟨he, hf⟩ | he | he | hf | hf
  · exact .inl (.inl (.inl (.inl ⟨opposite_of_sees he1 he2 he, opposite_of_sees hf1 hf2 hf⟩)))
  · exact .inl (.inl (.inl (.inr (he1.touches he))))
  · exact .inl (.inl (.inr (he2.touches he)))
  · exact .inl (.inr (hf1.touches hf))
  · exact .inr (hf2.touches hf)

end Edge

/-! ## Rings -/

namespace Ring

variable {r s : Ring} {p : Location} {e : Edge}

/-- From the first vertex to the last one, and back from there, every mark changes an even number of
times. -/
theorem parity_zip (f : Location → Bool) (v w : Location) (vs : Ring) :
    parity (fun e => f e.1 != f e.2) ((v :: vs).zip (vs ++ [w])) = (f v != f w) := by
  induction vs generalizing v with
  | nil => simp
  | cons u us ih =>
    rw [List.cons_append, List.zip_cons_cons, parity_cons, ih]
    generalize f v = a, f u = b, f w = c
    decide +revert

theorem parity_edges (f : Location → Bool) (r : Ring) :
    parity (fun e => f e.1 != f e.2) r.edges = false := by
  cases r with
  | nil => rfl
  | cons v vs => rw [edges, parity_zip, bne_self_eq_false]

theorem mem_of_edges (h : e ∈ r.edges) : e.1 ∈ r ∧ e.2 ∈ r := by
  cases r with
  | nil => cases h
  | cons v vs =>
    obtain ⟨h1, h2⟩ := List.of_mem_zip h
    refine ⟨h1, ?_⟩
    simpa [or_comm] using h2

def outline (r : Ring) : Outline where
  edges := r.edges.map Edge.points
  closed f := by
    rw [parity_map]
    exact parity_edges (fun p => f p.point) r

theorem surrounds_eq
    (h : ∀ e ∈ r.edges, e.crossedFrom p = Plane.crossedFrom p.point e.points) :
    r.surrounds p = r.outline.surrounds p.point :=
  calc r.surrounds p = parity (Edge.crossedFrom p) r.edges := rfl
    _ = parity (fun e => Plane.crossedFrom p.point e.points) r.edges := parity_congr h
    _ = r.outline.surrounds p.point := (parity_map ..).symm

/-- The edges of each of the rings see all vertices of the other. -/
def SeeEachOther (r s : Ring) : Prop :=
  (∀ v ∈ r, ∀ e ∈ s.edges, e.Sees v) ∧ ∀ v ∈ s, ∀ e ∈ r.edges, e.Sees v

instance (r s : Ring) : Decidable (r.SeeEachOther s) := inferInstanceAs (Decidable (_ ∧ _))

/-- Rings whose outlines have a point in common overlap. -/
theorem overlaps_of_holds {l : Point} (H : r.SeeEachOther s) (hr : r.outline.Holds l)
    (hs : s.outline.Holds l) : r.overlaps s := by
  have hend {r s : Ring} (H : ∀ v ∈ r, ∀ e ∈ s.edges, e.Sees v)
      (h : ∃ e ∈ r.outline.edges, s.outline.surrounds e.1) : r.any s.surrounds := by
    obtain ⟨_, hmem, hin⟩ := h
    obtain ⟨e, he, rfl⟩ := List.mem_map.1 hmem
    have hv := (mem_of_edges he).1
    exact List.any_eq_true.2 ⟨e.1, hv, (surrounds_eq fun f hf => (H _ hv f hf).crossed).trans hin⟩
  simp only [overlaps, Bool.or_eq_true]
  by_cases hapart : r.outline.Apart s.outline
  · exact .inl ((Outline.overlap hr hs hapart).imp (hend H.1) (hend H.2))
  · simp only [Outline.Apart, outline, List.forall_mem_map, not_forall] at hapart
    obtain ⟨e, he, f, hf, hmeet⟩ := hapart
    obtain ⟨he1, he2⟩ := mem_of_edges he
    obtain ⟨hf1, hf2⟩ := mem_of_edges hf
    have hmeets := Edge.meets_of_sees (H.1 _ he1 f hf) (H.1 _ he2 f hf) (H.2 _ hf1 e he)
      (H.2 _ hf2 e he) hmeet
    exact .inr (List.any_eq_true.2 ⟨e, he, List.any_eq_true.2 ⟨f, hf, hmeets⟩⟩)

/-- What holds with exact numbers of the edges of a ring and the center of a disc the tests in
doubles find: which edges a ray from the center crosses, and which are near enough. -/
def SeesDisc (r : Ring) (radius : Float) (center : Location) : Prop :=
  ∀ e ∈ r.edges, e.crossedFrom center = Plane.crossedFrom center.point e.points ∧
    (Within (valueOf radius) center.point (foot center.point e.points) →
      Edge.distance center e ≤ radius)

instance (r : Ring) (radius : Float) (center : Location) : Decidable (r.SeesDisc radius center) :=
  inferInstanceAs (Decidable (∀ e ∈ _, _))

theorem surrounds_or_within {l : Point} {radius : Float} {center : Location}
    (H : r.SeesDisc radius center) (hr : r.outline.Holds l)
    (hc : Within (valueOf radius) center.point l) :
    r.surrounds center || r.within radius center := by
  rw [Bool.or_eq_true]
  rcases Outline.surrounds_or_near hr hc with hin | ⟨_, hmem, hnear⟩
  · exact .inl ((surrounds_eq fun e he => (H e he).1).trans hin)
  · obtain ⟨e, he, rfl⟩ := List.mem_map.1 hmem
    exact .inr (List.any_eq_true.2 ⟨e, he, decide_eq_true ((H e he).2 hnear)⟩)

end Ring

/-! ## Geofences -/

namespace Geofence

variable {g h : Geofence} {l : Location}

/-- The region that a geofence describes. -/
def Holds : Geofence → Point → Prop
  | circle center radius, p => Within (valueOf radius) center.point p
  | polygon vertices, p => (Ring.outline vertices).Holds p
  | undefined, _ => False

/-- What the tests in doubles find of a location holds with exact numbers: that it is near enough to
the center, which edges a ray from it crosses, and which edges it is on. -/
def LocatesExactly : Geofence → Location → Prop
  | circle center radius, l =>
    center.distance l ≤ radius → Within (valueOf radius) center.point l.point
  | polygon vertices, l => ∀ e ∈ Ring.edges vertices,
    e.crossedFrom l = Plane.crossedFrom l.point e.points ∧
      (Edge.distance l e ≤ Ring.tolerance → foot l.point e.points = l.point)
  | undefined, _ => True

/-- What holds of two geofences with exact numbers the tests in doubles find: that two centers are
near enough, how edges lie to a center, and how the edges of the one lie to the vertices of the
other. -/
def ComparesExactly : Geofence → Geofence → Prop
  | circle a r, circle b s =>
    Within (valueOf r + valueOf s) a.point b.point → a.distance b ≤ r + s
  | circle center radius, polygon vertices
  | polygon vertices, circle center radius => Ring.SeesDisc vertices radius center
  | polygon r, polygon s => Ring.SeeEachOther r s
  | _, _ => True

instance : (g : Geofence) → (l : Location) → Decidable (g.LocatesExactly l)
  | circle .., _ => inferInstanceAs (Decidable (_ → _))
  | polygon .., _ => inferInstanceAs (Decidable (∀ e ∈ _, _))
  | undefined, _ => inferInstanceAs (Decidable True)

instance : (g h : Geofence) → Decidable (g.ComparesExactly h)
  | circle .., circle .. => inferInstanceAs (Decidable (_ → _))
  | circle .., polygon .. | polygon .., circle .. =>
    inferInstanceAs (Decidable (Ring.SeesDisc ..))
  | polygon .., polygon .. => inferInstanceAs (Decidable (Ring.SeeEachOther ..))
  | undefined, _ | circle .., undefined | polygon .., undefined => inferInstanceAs (Decidable True)

/-- What a geofence contains is in its region. -/
theorem holds_of_contains (H : g.LocatesExactly l) (hg : g.contains l) : g.Holds l.point := by
  cases g with
  | circle center radius =>
    simp only [contains, Bool.and_eq_true, decide_eq_true_eq] at hg
    exact H hg.2
  | polygon vertices =>
    simp only [contains, Bool.and_eq_true, Bool.or_eq_true] at hg
    rcases hg.2 with hin | hon
    · exact .inl ((Ring.surrounds_eq fun e he => (H e he).1).symm.trans hin)
    · obtain ⟨e, he, hdistance⟩ := List.any_eq_true.1 hon
      have hfoot := (H e he).2 (of_decide_eq_true hdistance)
      exact .inr ⟨_, List.mem_map_of_mem he, Plane.foot_eq_iff.1 hfoot⟩
  | undefined => simp [contains, isDegenerate] at hg

theorem not_isDegenerate_of_contains (hg : g.contains l) : g.isDegenerate = false := by
  simp only [contains, Bool.and_eq_true, Bool.not_eq_true'] at hg
  exact hg.1

/-- Geofences whose regions have a point in common intersect. -/
theorem intersects_of_holds {p : Point} (H : g.ComparesExactly h) (hg : g.isDegenerate = false)
    (hh : h.isDegenerate = false) (hgp : g.Holds p) (hhp : h.Holds p) : g.intersects h := by
  simp only [intersects, hg, hh, Bool.not_false, Bool.true_and]
  cases g with
  | circle a r =>
    cases h with
    | circle b s => exact decide_eq_true (H (hgp.add hhp))
    | polygon vertices => exact Ring.surrounds_or_within H hhp hgp
    | undefined => exact hhp.elim
  | polygon r =>
    cases h with
    | circle center radius => exact Ring.surrounds_or_within H hgp hhp
    | polygon s => exact Ring.overlaps_of_holds H hgp hhp
    | undefined => exact hhp.elim
  | undefined => exact hgp.elim

end Geofence

end Geocast
