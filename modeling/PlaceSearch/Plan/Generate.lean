import PlaceSearch.Decimal.Binary
import PlaceSearch.Plan.Row

/-!
# Generating plans

A circle is covered by seven circles of half its radius: one at its centre and six around it
at steps of sixty degrees.  A plan begins with a circle at level `1` and goes down layer by
layer, as long as the radius stays at or above a minimum.
-/

namespace PlaceSearch

/-- The length of one degree of latitude, in metres. -/
def metresPerDegree : Float := 111320.0

def radians (degrees : Float) : Float :=
  degrees * (3.141592653589793 / 180.0)

/-- The length of one degree of longitude at a latitude, in metres; near the poles it is kept
away from zero. -/
def metresPerDegreeAt (lat : Float) : Float :=
  let shrink := (Float.cos (radians lat)).abs
  metresPerDegree * (if shrink > 1e-6 then shrink else 1e-6)

/-- The centres of the seven circles of half the radius that cover a circle: its own centre
and six at steps of sixty degrees, `√3 / 2` of the radius away. -/
def coverCenters (c : Circle) : List Coordinate :=
  let distance := c.radius * Float.sqrt 3.0 / 2.0
  let lngScale := metresPerDegreeAt c.center.lat
  c.center :: [0.0, 1.0, 2.0, 3.0, 4.0, 5.0].map fun step =>
    let angle := radians (60.0 * step)
    ⟨c.center.lat + distance * Float.sin angle / metresPerDegree,
      c.center.lng + distance * Float.cos angle / lngScale⟩

/-- The seven circles of half the radius that cover a circle. -/
def cover (c : Circle) : List Circle :=
  (coverCenters c).map (⟨·, c.radius / 2.0⟩)

theorem length_cover (c : Circle) : (cover c).length = 7 := by
  simp [cover, coverCenters]

/-- The levels of the seven parts of a level. -/
def childLevels (level : String) : List String :=
  (List.range 7).map fun i => level ++ "." ++ toString (i + 1)

/-- The centres and levels of a layer, one layer down. -/
def nextLayer (radius : Float) (layer : List (Coordinate × String)) :
    List (Coordinate × String) :=
  layer.flatMap fun (center, level) =>
    (coverCenters ⟨center, radius⟩).zip (childLevels level)

/-- The height of a number in the order of floating-point numbers. -/
def height (x : Float) : Nat :=
  (Decimal.rank x).toNat

/-- The rows of a layer, whose circles have one radius, and of all layers below it.  Halving
a radius that is not infinite lowers it, so there are only so many layers. -/
def generateLayers (minRadius radius : Float) (layer : List (Coordinate × String)) :
    List String :=
  let rows := layer.map fun (center, level) => renderRow ⟨center, radius⟩ level
  if radius / 2.0 ≥ minRadius ∧ minRadius > 0.0 then
    if height (radius / 2.0) < height radius then
      rows ++ generateLayers minRadius (radius / 2.0) (nextLayer radius layer)
    else rows
  else rows
termination_by height radius

/-- The rows of the plan of a circle: all layers down to the minimal radius, and the closing
row. -/
def generatePlan (c : Circle) (minRadius : Float) : List String :=
  generateLayers minRadius c.radius [(c.center, "1")] ++ [PlanEntry.endMarker]

end PlaceSearch
