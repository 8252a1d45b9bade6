import PlaceSearch.Decimal.Shortest
import PlaceSearch.Geo
import PlaceSearch.Json.Value

/-!
# Requests to the provider

The provider is asked for the places of a circle by category or by text, or for one place by
its id.  Each of the three has a current and an older shape; the older search by category
knows one type only and no exclusions.
-/

namespace PlaceSearch

/-- A request to the provider. -/
inductive Request where
  | nearby (circle : Circle) (included excluded : List String)
  | text (circle : Circle) (query : String) (page : Option String)
  | details (id : String)
  | legacyNearby (circle : Circle) (type : Option String)
  | legacyText (circle : Circle) (query : String) (page : Option String)
  | legacyDetails (id : String)

namespace Request

def ofCategories (geo : Geo) (included excluded : List String) : Request :=
  .nearby geo.circle included excluded

def ofPhrase (geo : Geo) (query : String) : Request :=
  .text geo.circle query geo.page

/-- The same request in the older shape, with only the first of the included types. -/
def toLegacy : Request → Request
  | .nearby c included _ => .legacyNearby c included.head?
  | .text c query page => .legacyText c query page
  | .details id => .legacyDetails id
  | r => r

/-- Whether the request is a search that excludes the type. -/
def excludes (r : Request) (type : String) : Bool :=
  match r with
  | .nearby _ _ excluded => excluded.contains type
  | _ => false

/-- Whether the older shape leaves out an included type. -/
def legacyDropsIncluded : Request → Bool
  | .nearby _ included _ => included.length > 1
  | _ => false

/-- Whether the request has the older shape. -/
def isLegacy : Request → Bool
  | .legacyNearby _ _ | .legacyText _ _ _ | .legacyDetails _ => true
  | _ => false

def circleJson (c : Circle) : Json :=
  Json.object [("circle", Json.object
    [("center", Json.object
        [("latitude", .ofFloat c.center.lat), ("longitude", .ofFloat c.center.lng)]),
      ("radius", .ofFloat c.radius)])]

def body : Request → Option Json
  | .nearby c included excluded => some <| Json.object
      [("includedTypes", .ofTexts included), ("excludedTypes", .ofTexts excluded),
        ("locationRestriction", circleJson c)]
  | .text c query page => some <| Json.object
      [("textQuery", .str query), ("includePureServiceAreaBusinesses", .bool false),
        ("pageToken", .str (page.getD "")), ("locationBias", circleJson c)]
  | _ => none

def location (c : Circle) : String :=
  Decimal.plain c.center.lat ++ "," ++ Decimal.plain c.center.lng

/-- The parameters an older request carries, without the key. -/
def parameters : Request → List (String × String)
  | .legacyNearby c type =>
    [("location", location c), ("radius", Decimal.plain c.radius)]
      ++ type.toList.map fun t => ("type", t)
  | .legacyText c query page =>
    [("query", query), ("location", location c), ("radius", Decimal.plain c.radius)]
      ++ page.toList.map fun t => ("pagetoken", t)
  | .legacyDetails id => [("place_id", id)]
  | _ => []

def render : Request → String
  | .nearby _ included excluded =>
    "searchNearby +[" ++ ",".intercalate included ++ "] -[" ++ ",".intercalate excluded ++ "]"
  | .text _ query _ => "searchText '" ++ query ++ "'"
  | .details id => "details " ++ id
  | .legacyNearby _ type => "nearbysearch type=" ++ type.getD ""
  | .legacyText _ query _ => "textsearch '" ++ query ++ "'"
  | .legacyDetails id => "legacy details " ++ id

end Request

end PlaceSearch
