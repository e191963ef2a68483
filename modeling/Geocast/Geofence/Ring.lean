import Geocast.Location

/-! # Rings of vertices

A polygon is a closed ring of vertices whose first vertex is not repeated at the end. This module
holds the tests on rings and on single edges: the distance of a point from an edge, the parity of
the edges that a ray crosses, and whether two edges meet. -/

namespace Geocast

/-- An edge between two vertices. -/
abbrev Edge := Location × Location

namespace Edge

/-- Keeps `t` between 0 and 1. NaN stays NaN. -/
def clampUnit (t : Float) : Float := if t < 0 then 0 else if t > 1 then 1 else t

/-- The distance of a point from an edge: from its projection onto the line through the edge,
moved to the nearer end when it falls outside. -/
def distance (p : Location) (e : Edge) : Float :=
  let (a, b) := e
  let dx := b.lon - a.lon
  let dy := b.lat - a.lat
  let square := dx * dx + dy * dy
  if square == 0 then p.distance a
  else
    let t := clampUnit (((p.lon - a.lon) * dx + (p.lat - a.lat) * dy) / square)
    p.distance ⟨a.lat + t * dy, a.lon + t * dx⟩

/-- Whether the ray from `p` towards greater longitudes crosses the edge. An edge owns the end of
lower latitude only, so a ray through a vertex counts it once. -/
def crossedFrom (p : Location) (e : Edge) : Bool :=
  let (a, b) := e
  (decide (a.lat > p.lat) != decide (b.lat > p.lat))
    && decide (p.lon < a.lon + (p.lat - a.lat) / (b.lat - a.lat) * (b.lon - a.lon))

/-- On which side of the edge `c` lies, as the sign of the result; zero on its line. -/
def side (e : Edge) (c : Location) : Float :=
  let (a, b) := e
  (b.lon - a.lon) * (c.lat - a.lat) - (b.lat - a.lat) * (c.lon - a.lon)

/-- Whether two numbers lie on different sides of zero. -/
def opposite (x y : Float) : Bool :=
  (decide (x > 0) && decide (y < 0)) || (decide (x < 0) && decide (y > 0))

/-- Whether `p` is a point of the edge: on its line, and at distance zero. -/
def touches (e : Edge) (p : Location) : Bool := e.side p == 0 && distance p e == 0

/-- Whether two edges share a point: each separates the ends of the other, or an end of one lies
on the other. -/
def meets (e f : Edge) : Bool :=
  (opposite (f.side e.1) (f.side e.2) && opposite (e.side f.1) (e.side f.2))
    || f.touches e.1 || f.touches e.2 || e.touches f.1 || e.touches f.2

end Edge

/-- The vertices of a polygon in order. -/
abbrev Ring := List Location

namespace Ring

def edges : Ring → List Edge
  | [] => []
  | v :: vs => (v :: vs).zip (vs ++ [v])

/-- Whether a ray from `p` crosses an odd number of edges. -/
def surrounds (r : Ring) (p : Location) : Bool :=
  r.edges.foldl (fun inside e => inside != e.crossedFrom p) false

/-- The gap between 1 and the next double, up to which a point counts as lying on an edge. -/
def tolerance : Float := 2.220446049250313e-16

/-- Whether `p` lies on an edge, up to the tolerance. -/
def onBoundary (r : Ring) (p : Location) : Bool :=
  r.edges.any fun e => decide (Edge.distance p e ≤ tolerance)

/-- Whether some edge comes as near to `p` as `radius`. -/
def within (r : Ring) (radius : Float) (p : Location) : Bool :=
  r.edges.any fun e => decide (Edge.distance p e ≤ radius)

/-- Whether two rings share a point: a vertex of one inside the other, or two edges that meet. -/
def overlaps (r s : Ring) : Bool :=
  r.any s.surrounds || s.any r.surrounds || r.edges.any fun e => s.edges.any e.meets

def mean (r : Ring) : Location :=
  let sum : Location := r.foldl (fun s v => ⟨s.lat + v.lat, s.lon + v.lon⟩) ⟨0, 0⟩
  let n := Float.ofNat r.length
  ⟨sum.lat / n, sum.lon / n⟩

end Ring

end Geocast
