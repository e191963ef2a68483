import Geocast.Geofence.Ring

/-! # Geofences

A geofence is a region of the map: a circle, a polygon or nothing. `Geofence.contains` tells which
locations lie in it and `Geofence.intersects` whether two geofences share a point. Degenerate
shapes contain nothing and intersect nothing. -/

namespace Geocast

inductive Geofence
  /-- The points within `radius` degrees of `center`. -/
  | circle (center : Location) (radius : Float)
  /-- The inside and the boundary of a ring. -/
  | polygon (vertices : Ring)
  | undefined
deriving BEq

namespace Geofence

/-- The rectangle spanned by its south-west and its north-east corner. -/
def rectangle (sw ne : Location) : Geofence :=
  .polygon [sw, ⟨sw.lat, ne.lon⟩, ne, ⟨ne.lat, sw.lon⟩]

/-- The rectangle of all valid coordinates. -/
def world : Geofence := rectangle ⟨-90, -180⟩ ⟨90, 180⟩

/-- Whether a shape bounds no region: a radius that is negative or not finite, or fewer than
three vertices. -/
def isDegenerate : Geofence → Bool
  | circle _ radius => !isFiniteFloat radius || decide (radius < 0)
  | polygon vertices => decide (vertices.length < 3)
  | undefined => true

def contains (g : Geofence) (p : Location) : Bool :=
  !g.isDegenerate && match g with
  | circle center radius => decide (center.distance p ≤ radius)
  | polygon vertices => vertices.surrounds p || vertices.onBoundary p
  | undefined => false

def intersects (g h : Geofence) : Bool :=
  !g.isDegenerate && !h.isDegenerate && match g, h with
  | circle a r, circle b s => decide (a.distance b ≤ r + s)
  | circle center radius, polygon vertices
  | polygon vertices, circle center radius =>
    vertices.surrounds center || vertices.within radius center
  | polygon r, polygon s => r.overlaps s
  | _, _ => false

/-- An approximate center, if the geofence has one. -/
def centroid? (g : Geofence) : Option Location :=
  if g.isDegenerate then none
  else match g with
    | circle center _ => some center
    | polygon vertices => some vertices.mean
    | undefined => none

/-- A short text of the geofence. A polygon shows only the number of its vertices. -/
def text : Geofence → String
  | circle center radius => "CIRCLE(" ++ center.text ++ ", " ++ plainText radius ++ ")"
  | polygon vertices => "POLYGON(" ++ toString vertices.length ++ " vertices)"
  | undefined => "UNDEFINED"

def isFinite : Geofence → Bool
  | circle center radius => center.isFinite && isFiniteFloat radius
  | polygon vertices => vertices.all Location.isFinite
  | undefined => true

end Geofence

end Geocast
