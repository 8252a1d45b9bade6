import PlaceSearch.Error
import PlaceSearch.Http.Url
import PlaceSearch.Json.Parse
import PlaceSearch.Provider.Execute
import PlaceSearch.Text.Blank
import PlaceSearch.Text.Find

/-!
# Requests on the wire

The current searches carry a document and the question for one place an id in its path; all
three name the parts of a record that are asked for and the key in their headers.  The older
shapes carry everything in their query.
-/

namespace PlaceSearch

/-- The parts of a record that are asked for. -/
def defaultFields : List String :=
  ["places.id", "places.displayName", "places.formattedAddress",
    "places.internationalPhoneNumber", "places.location", "places.types", "places.primaryType",
    "places.priceLevel", "places.rating", "places.userRatingCount"]

/-- Where and how the provider is asked: the key, the addresses of the three searches in both
shapes, the parts of a record that are asked for, and how long to wait for an answer. -/
structure ProviderSettings where
  apiKey : String := ""
  nearbyUrl : String := "https://places.googleapis.com/v1/places:searchNearby"
  textUrl : String := "https://places.googleapis.com/v1/places:searchText"
  detailsUrl : String := "https://places.googleapis.com/v1/places"
  legacyNearbyUrl : String := "https://maps.googleapis.com/maps/api/place/nearbysearch/json"
  legacyTextUrl : String := "https://maps.googleapis.com/maps/api/place/textsearch/json"
  legacyDetailsUrl : String := "https://maps.googleapis.com/maps/api/place/details/json"
  fieldMask : String := ",".intercalate defaultFields
  timeoutMillis : Nat := 10000

/-- A request as it is sent: its method, its path and query, its headers, and the document it
carries. -/
structure WireRequest where
  method : String
  target : String
  headers : List (String × String) := []
  body : Option Json := none

namespace WireRequest

/-- The header that names the parts of a record that are asked for. -/
def fieldMaskHeader : String := "X-Goog-FieldMask"

def apiKeyHeader : String := "X-Goog-Api-Key"

def header? (w : WireRequest) (name : String) : Option String :=
  w.headers.lookup name

def isHeaderValue (s : String) : Bool :=
  s.toList.all fun c => c == '\t' || (c.toNat ≥ 32 && c.toNat != 127)

/-- A part of a record as it is named when a single place is asked for. -/
def withoutPlaces (cs : List Char) : Nat → List Char
  | 0 => cs
  | fuel + 1 =>
    match Text.startsWith? "places.".toList cs with
    | some r => withoutPlaces r fuel
    | none => cs

/-- The parts of a record as they are named when a single place is asked for. -/
def detailsMask (mask : String) : String :=
  ",".intercalate <| (mask.splitOn ",").map fun field =>
    let cs := (Text.trim field).toList
    String.ofList (withoutPlaces cs cs.length)

/-- A text without slashes at its end. -/
def withoutSlashes (s : String) : String :=
  String.ofList (s.toList.reverse.dropWhile (· == '/')).reverse

/-- A current request, if its headers can be sent. -/
def current (s : ProviderSettings) (method url mask : String) (body : Option Json) :
    Except Error WireRequest :=
  if isHeaderValue mask && isHeaderValue s.apiKey then .ok {
    method
    target := Url.target url
    headers := [(fieldMaskHeader, mask), (apiKeyHeader, s.apiKey)]
    body }
  else .error (.provider "a header cannot be sent")

/-- An older request. -/
def legacy (s : ProviderSettings) (url : String) (r : Request) : WireRequest where
  method := "GET"
  target := Url.withQuery (Url.target url) (r.parameters ++ [("key", s.apiKey)])

/-- The request that is sent. -/
def ofRequest (s : ProviderSettings) (r : Request) : Except Error WireRequest :=
  match r with
  | .nearby _ _ _ => current s "POST" s.nearbyUrl s.fieldMask r.body
  | .text _ _ _ => current s "POST" s.textUrl (s.fieldMask ++ ",nextPageToken") r.body
  | .details id =>
    current s "GET" (withoutSlashes s.detailsUrl ++ "/" ++ id) (detailsMask s.fieldMask) none
  | .legacyNearby _ _ => .ok (legacy s s.legacyNearbyUrl r)
  | .legacyText _ _ _ => .ok (legacy s s.legacyTextUrl r)
  | .legacyDetails _ => .ok (legacy s s.legacyDetailsUrl r)

end WireRequest

/-- Whether an answer of a status has a content. -/
def hasContent (status : Nat) : Bool :=
  status ≥ 200 && status != 204 && status != 304

/-- The reply that an answer makes; a content that is no document counts as `null`. -/
def Reply.ofWire (status : Nat) (content : String) : Reply :=
  .answered status
    (if hasContent status then (Json.parse? content).getD .null else .null)

end PlaceSearch
