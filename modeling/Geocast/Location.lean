import Geocast.Decimal.Places
import Geocast.Hypotenuse

/-! # Locations

A location is a latitude and a longitude in decimal degrees. Geofences measure the planar
distance in degrees, `Location.distance`; the great-circle distance `Location.kilometers` is for
reports only. -/

namespace Geocast

/-- A point given by latitude and longitude in decimal degrees. -/
structure Location where
  lat : Float
  lon : Float
deriving BEq

namespace Location

def distance (a b : Location) : Float := hypotenuse (a.lat - b.lat) (a.lon - b.lon)

/-- The mean radius of the earth in kilometers. -/
def earthRadius : Float := 6371

def radians (x : Float) : Float := x * (3.141592653589793 / 180)

/-- The great-circle distance in kilometers, by the haversine formula. -/
def kilometers (a b : Location) : Float :=
  let square (x : Float) := x * x
  let dLat := radians (b.lat - a.lat)
  let dLon := radians (b.lon - a.lon)
  let h := square (dLat / 2).sin
    + (radians a.lat).cos * (radians b.lat).cos * square (dLon / 2).sin
  2 * earthRadius * h.sqrt.asin

/-- The text of a location: both coordinates with six places. -/
def text (a : Location) : String :=
  "(" ++ fixedText 6 a.lat ++ ", " ++ fixedText 6 a.lon ++ ")"

def isFinite (a : Location) : Bool := isFiniteFloat a.lat && isFiniteFloat a.lon

end Location

end Geocast
