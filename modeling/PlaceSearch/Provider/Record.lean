import PlaceSearch.Dataset.Feature
import PlaceSearch.Json.Print

/-!
# Records of the provider

An answer holds a list of records in one of two schemas, or a single record.  Every record
becomes a feature; what a record lacks or writes in another way is left empty.

## Main definitions

* `Record.toFeature` — the feature of a record.
* `Record.features` — the features of an answer.
* `Record.nextPage` — the cursor to the next page of an answer.
-/

namespace PlaceSearch.Record

/-- Whether a record is in the older schema. -/
def isLegacy (r : Json) : Bool :=
  (r.get? "geometry").isSome || (r.get? "place_id").isSome

def types (r : Json) : List String :=
  (((r.get? "types").bind Json.items?).getD []).filterMap Json.text?

/-- The price level of a record, a text or the text of a number. -/
def priceLevel (r : Json) : Option String :=
  match (r.get? "priceLevel").or (r.get? "price_level") with
  | some (.str s) => some s
  | some (.num n) => some n.text
  | _ => none

/-- A coordinate of a location; zero if it is missing. -/
def coordinate (location : Option Json) (key : String) : Float :=
  (((location.bind (Json.get? key)).bind Json.float?)).getD 0.0

/-- A number of a record that counts something. -/
def count? (r : Json) (key : String) : Option Nat :=
  (r.get? key).bind Json.nat?

def toFeature (r : Json) : Feature :=
  let rating := (r.get? "rating").bind Json.float?
  if isLegacy r then
    let location := (r.get? "geometry").bind (Json.get? "location")
    { geometry := { lng := coordinate location "lng", lat := coordinate location "lat" }
      properties := {
        name := (r.textAt? "name").getD ""
        rating
        address := ((r.textAt? "formatted_address").or (r.textAt? "vicinity")).getD ""
        phone := ((r.textAt? "international_phone_number").or
          (r.textAt? "formatted_phone_number")).getD ""
        types := types r
        priceLevel := priceLevel r
        primaryType := (types r).headD ""
        ratingsTotal := count? r "user_ratings_total"
        heatmapWeight := 1
        id := r.textAt? "place_id" } }
  else
    let location := r.get? "location"
    { geometry :=
        { lng := coordinate location "longitude", lat := coordinate location "latitude" }
      properties := {
        name := ((r.get? "displayName").bind (Json.textAt? "text")).getD ""
        rating
        address := (r.textAt? "formattedAddress").getD ""
        phone := (r.textAt? "internationalPhoneNumber").getD ""
        types := types r
        priceLevel := priceLevel r
        primaryType := (r.textAt? "primaryType").getD ""
        ratingsTotal := count? r "userRatingCount"
        heatmapWeight := 1
        id := r.textAt? "id" } }

/-- The records of an answer: the list of a search in either schema, the result of a question
for one place, or the answer itself if it has an id. -/
def records (body : Json) : List Json :=
  match (body.get? "places").bind Json.items? with
  | some places => places
  | none => match (body.get? "results").bind Json.items? with
    | some results => results
    | none => match (body.get? "result").filter Json.isObject with
      | some result => [result]
      | none =>
        if (body.get? "id").isSome || (body.get? "place_id").isSome then [body] else []

def features (body : Json) : List Feature :=
  (records body).map toFeature

/-- The cursor to the next page of an answer. -/
def nextPage (body : Json) : Option String :=
  (((body.get? "nextPageToken").or (body.get? "next_page_token")).bind Json.text?).filter
    (!·.isEmpty)

end PlaceSearch.Record
