/-!
# Places on the map

Requests are aimed at a circle around a point, and at one page of what is found there.
-/

namespace PlaceSearch

/-- A point in degrees. -/
structure Coordinate where
  lat : Float
  lng : Float

/-- A circle; its radius is in metres. -/
structure Circle where
  center : Coordinate
  radius : Float

/-- Where a request is aimed: a circle, and the cursor of a page of the answer, if it is not
the first. -/
structure Geo where
  circle : Circle
  page : Option String

namespace Geo

/-- The first page of a circle. -/
def ofCircle (c : Circle) : Geo := ⟨c, none⟩

/-- The same circle at a cursor; the empty cursor is none. -/
def atPage (g : Geo) (page : Option String) : Geo :=
  { g with page := page.filter (!·.isEmpty) }

/-- The first page of the same circle. -/
def firstPage (g : Geo) : Geo :=
  { g with page := none }

end Geo

end PlaceSearch
