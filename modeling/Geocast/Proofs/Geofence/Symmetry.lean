import Geocast.Geofence.Basic
import Geocast.Proofs.Decimal.Exchange
import Geocast.Proofs.Geofence.Outline

/-! # Symmetries of the tests on geofences

Neither the order of two geofences nor the vertex that a ring starts from makes a difference, with
rounding and all. Two geofences intersect in either order (`Geofence.intersects_comm`), since the
tests on a pair of edges come in pairs as well (`Edge.meets_comm`). All other tests on a ring go
through its edges in any order (`Ring.SameEdges`), and the edges rotate with the vertices
(`Ring.edges_rotate`). -/

namespace Geocast

/-! ## Exchange -/

theorem Edge.meets_comm (e f : Edge) : e.meets f = f.meets e := by
  simp only [meets]
  rw [Bool.and_comm (opposite (f.side e.1) (f.side e.2))]
  ac_rfl

namespace Ring

theorem overlaps_comm (r s : Ring) : r.overlaps s = s.overlaps r := by
  have hmeet : (r.edges.any fun e => s.edges.any e.meets) =
      s.edges.any fun f => r.edges.any f.meets := by
    rw [Bool.eq_iff_iff]
    simp only [List.any_eq_true]
    constructor
    · rintro ⟨e, he, f, hf, hmeet⟩
      exact ⟨f, hf, e, he, Edge.meets_comm e f ▸ hmeet⟩
    · rintro ⟨f, hf, e, he, hmeet⟩
      exact ⟨e, he, f, hf, Edge.meets_comm f e ▸ hmeet⟩
  rw [overlaps, overlaps, hmeet, Bool.or_comm (r.any s.surrounds)]

/-! ## Rotation -/

/-- Every vertex begins the edge to the one after it. -/
theorem edges_eq_zip (r : Ring) : r.edges = r.zip (r.rotate 1) := by
  cases r with
  | nil => rfl
  | cons v vs => rw [edges, List.rotate_cons_succ, List.rotate_zero]

theorem edges_rotate (r : Ring) (n : Nat) : edges (r.rotate n) = r.edges.rotate n := by
  have hlength : r.length = (r.rotate 1).length := (List.length_rotate ..).symm
  calc edges (r.rotate n) = (r.rotate n).zip ((r.rotate 1).rotate n) := by
        rw [edges_eq_zip, List.rotate_rotate, List.rotate_rotate, add_comm]
    _ = (r.zip (r.rotate 1)).rotate n := (List.zipWith_rotate_distrib Prod.mk r _ n hlength).symm
    _ = r.edges.rotate n := by rw [edges_eq_zip]

/-- Two rings with the same vertices and the same edges, in whatever order. -/
structure SameEdges (r r' : Ring) : Prop where
  vertices : r.Perm r'
  edges : r.edges.Perm r'.edges

theorem sameEdges_rotate (r : Ring) (n : Nat) : SameEdges (r.rotate n) r where
  vertices := List.rotate_perm r n
  edges := edges_rotate r n ▸ List.rotate_perm r.edges n

namespace SameEdges

variable {r r' : Ring} (H : SameEdges r r')
include H

theorem surrounds (p : Location) : r.surrounds p = r'.surrounds p :=
  parity_perm H.edges

theorem onBoundary (p : Location) : r.onBoundary p = r'.onBoundary p :=
  H.edges.any_eq

theorem within (radius : Float) (p : Location) : r.within radius p = r'.within radius p :=
  H.edges.any_eq

theorem overlaps_left (s : Ring) : r.overlaps s = r'.overlaps s := by
  rw [overlaps, overlaps, H.vertices.any_eq, H.edges.any_eq, funext H.surrounds]

theorem overlaps_right (s : Ring) : s.overlaps r = s.overlaps r' := by
  have hmeet : ∀ e : Edge, r.edges.any e.meets = r'.edges.any e.meets := fun _ => H.edges.any_eq
  rw [overlaps, overlaps, H.vertices.any_eq, funext H.surrounds, funext hmeet]

theorem isDegenerate :
    (Geofence.polygon r).isDegenerate = (Geofence.polygon r').isDegenerate := by
  rw [Geofence.isDegenerate, Geofence.isDegenerate, H.vertices.length_eq]

theorem contains (p : Location) :
    (Geofence.polygon r).contains p = (Geofence.polygon r').contains p := by
  simp only [Geofence.contains, H.isDegenerate, H.surrounds, H.onBoundary]

theorem intersects_left (g : Geofence) :
    (Geofence.polygon r).intersects g = (Geofence.polygon r').intersects g := by
  cases g <;>
    simp only [Geofence.intersects, H.isDegenerate, H.surrounds, H.within, H.overlaps_left]

theorem intersects_right (g : Geofence) :
    g.intersects (.polygon r) = g.intersects (.polygon r') := by
  cases g <;>
    simp only [Geofence.intersects, H.isDegenerate, H.surrounds, H.within, H.overlaps_right]

end SameEdges

end Ring

/-! ## Geofences -/

namespace Geofence

/-- Whether two geofences intersect does not depend on their order. -/
theorem intersects_comm (g h : Geofence) : g.intersects h = h.intersects g := by
  unfold intersects
  rw [Bool.and_comm (!g.isDegenerate)]
  refine congrArg (!h.isDegenerate && !g.isDegenerate && ·) ?_
  cases g with
  | circle a r =>
    cases h with
    | circle b s =>
      show decide (a.distance b ≤ r + s) = decide (b.distance a ≤ s + r)
      rw [Location.distance_comm, Float.add_comm]
    | polygon | undefined => rfl
  | polygon r =>
    cases h with
    | polygon s => exact Ring.overlaps_comm r s
    | circle | undefined => rfl
  | undefined => cases h <;> rfl

/-- It does not matter from which vertex a polygon starts. -/
theorem polygon_rotate (r : Ring) (n : Nat) (l : Location) (g : Geofence) :
    (polygon (r.rotate n)).contains l = (polygon r).contains l ∧
    (polygon (r.rotate n)).intersects g = (polygon r).intersects g ∧
    g.intersects (polygon (r.rotate n)) = g.intersects (polygon r) :=
  have H := Ring.sameEdges_rotate r n
  ⟨H.contains l, H.intersects_left g, H.intersects_right g⟩

end Geofence

end Geocast
