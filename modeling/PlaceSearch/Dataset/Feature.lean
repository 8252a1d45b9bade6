/-!
# Features

A place as a point on the map with its properties.  The provider's id tells places apart; a
place may come without one.

## Main definitions

* `Geometry`, `Properties`, `Feature` — a point, its properties, and both.
* `Feature.id?` — the provider's id.
* `Feature.failed` — the stand-in for the answer to a call that failed.
-/

namespace PlaceSearch

/-- A point; longitude comes first. -/
structure Geometry where
  kind : String := "Point"
  lng : Float
  lat : Float

/-- What is known of a place. -/
structure Properties where
  name : String := ""
  rating : Option Float := none
  address : String := ""
  phone : String := ""
  types : List String := []
  priceLevel : Option String := none
  primaryType : String := ""
  ratingsTotal : Option Nat := none
  heatmapWeight : Nat := 0
  id : Option String := none

/-- A place. -/
structure Feature where
  kind : String := "Feature"
  geometry : Geometry
  properties : Properties

namespace Feature

/-- The id that stands for the answer to a failed call. -/
def failedId : String := "failed"

def id? (f : Feature) : Option String :=
  f.properties.id

/-- The stand-in for the answer to a call that failed. -/
def failed : Feature where
  geometry := { lng := 0.0, lat := 0.0 }
  properties := { name := failedId, heatmapWeight := 1, id := some failedId }

/-- Whether the feature stands for the answer to a failed call. -/
def isFailed (f : Feature) : Bool :=
  f.id? == some failedId

/-- The feature without its id. -/
def withoutId (f : Feature) : Feature :=
  { f with properties := { f.properties with id := none } }

/-- The properties every collection names. -/
def propertyNames : List String :=
  ["name", "rating", "address", "phone", "types", "priceLevel", "primaryType",
    "user_ratings_total", "heatmap_weight"]

end Feature

end PlaceSearch
