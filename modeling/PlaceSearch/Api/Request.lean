import PlaceSearch.Json.Decode
import PlaceSearch.Search

/-!
# What the service is asked

The service is asked for two things: how a query is compiled and planned, and for the places of a
query around a point, as a sample or in full.  Both come as documents, in which some fields have to
be present and the others have a default.
-/

namespace PlaceSearch

open Json (Decoder Field)

/-- A question how a query is compiled and planned. -/
structure CompileRequest where
  query : String
  type : SearchType := .categories

/-- The two kinds of fetches. -/
inductive FetchAction where
  | sample
  | full
deriving DecidableEq, Repr

/-- A fetch of the places of a query; country and city name the plan of a full one. -/
structure FetchRequest where
  query : String
  circle : Circle
  type : SearchType := .categories
  action : FetchAction := .sample
  country : String := ""
  city : String := ""
  page : Option String := none
  keepIds : Bool := false

def SearchType.ofSource : Decoder SearchType :=
  Json.Decode.choice
    [("default", .categories), ("category_search", .categories), ("keyword_search", .phrases),
      ("both", .both)]

def FetchAction.ofSource : Decoder FetchAction :=
  Json.Decode.choice [("sample", .sample), ("full data", .full)]

def CompileRequest.ofSource : Decoder CompileRequest :=
  Json.Decode.record
    [.required "query" Json.Decode.text fun query q => { q with query },
      .defaulted "search_type" SearchType.ofSource fun type q => { q with type }]
    { query := "" }

def FetchRequest.ofSource : Decoder FetchRequest :=
  let text := Json.Decode.text
  let float := Json.Decode.float
  Json.Decode.record
    [.required "query" text fun query q => { q with query },
      .required "lat" float fun lat q =>
        { q with circle := { q.circle with center := { q.circle.center with lat } } },
      .required "lng" float fun lng q =>
        { q with circle := { q.circle with center := { q.circle.center with lng } } },
      .required "radius" float fun radius q => { q with circle := { q.circle with radius } },
      .defaulted "search_type" SearchType.ofSource fun type q => { q with type },
      .defaulted "action" FetchAction.ofSource fun action q => { q with action },
      .defaulted "country" text fun country q => { q with country },
      .defaulted "city" text fun city q => { q with city },
      .defaulted "page_token" (Json.Decode.optional text) fun page q => { q with page },
      .defaulted "ids_only" Json.Decode.bool fun keepIds q => { q with keepIds }]
    { query := "", circle := ⟨⟨0.0, 0.0⟩, 0.0⟩ }

def FetchRequest.search (q : FetchRequest) : SearchRequest where
  query := q.query
  type := q.type
  circle := q.circle
  page := q.page
  keepIds := q.keepIds

end PlaceSearch
