import PlaceSearch.Dataset.Basic
import PlaceSearch.Decimal.Binary
import PlaceSearch.Json.Decode
import PlaceSearch.Json.Print

/-!
# Datasets as documents

Datasets are stored and answered as documents, with one for each feature.  A document that was
stored is read back into a dataset.
-/

namespace PlaceSearch

open Json (Decoder Field)

def Geometry.toJson (g : Geometry) : Json :=
  Json.object [("type", .str g.kind), ("coordinates", .arr [.ofFloat g.lng, .ofFloat g.lat])]

/-- The document of some properties; a missing id is left out, all else that is missing is
`null`. -/
def Properties.toJson (p : Properties) : Json :=
  Json.object <|
    [("name", .str p.name), ("rating", p.rating.elim .null .ofFloat),
      ("address", .str p.address), ("phone", .str p.phone), ("types", .ofTexts p.types),
      ("priceLevel", .ofText? p.priceLevel), ("primaryType", .str p.primaryType),
      ("user_ratings_total", p.ratingsTotal.elim .null .ofNat),
      ("heatmap_weight", .ofNat p.heatmapWeight)]
    ++ p.id.toList.map fun id => ("id", .str id)

def Feature.toJson (f : Feature) : Json :=
  Json.object [("type", .str f.kind), ("geometry", f.geometry.toJson),
    ("properties", f.properties.toJson)]

/-- The document of a dataset; a missing cursor is left out. -/
def Dataset.toJson (d : Dataset) : Json :=
  Json.object <|
    [("features", .arr (d.features.map Feature.toJson)), ("properties", .ofTexts d.properties)]
    ++ d.nextCursor.toList.map fun c => ("next_cursor", .str c)

def Collection.toJson (c : Collection) : Json :=
  Json.object [("type", .str c.kind), ("features", .arr (c.features.map Feature.toJson)),
    ("properties", .ofTexts c.properties)]

/-- Two numbers, no more and no less. -/
def Geometry.coordinates : Decoder (Float × Float)
  | .arr (x :: y :: rest) closed => do
    let lng ← Json.Decode.float x
    let lat ← Json.Decode.float y
    if rest.isEmpty && closed then return (lng, lat) else .error .malformed
  | .arr _ _ => .error .mismatched
  | x => Json.Decode.refuse x

def Geometry.ofSource : Decoder Geometry :=
  Json.Decode.record
    [Field.required "type" Json.Decode.text fun kind g => { g with kind },
      Field.required "coordinates" Geometry.coordinates fun (lng, lat) g =>
        { g with lng, lat }]
    { lng := 0.0, lat := 0.0 }

/-- The largest weight of a feature. -/
def Properties.maxWeight : Nat := twoPow 32 - 1

/-- The largest number of ratings. -/
def Properties.maxRatings : Nat := twoPow 64 - 1

/-- The properties that a document reads; each may be missing. -/
def Properties.ofSource : Decoder Properties :=
  let text := Json.Decode.text
  let optional {α : Type} := @Json.Decode.optional α
  Json.Decode.record
    [.defaulted "name" text fun name p => { p with name },
      .defaulted "rating" (optional Json.Decode.float) fun rating p => { p with rating },
      .defaulted "address" text fun address p => { p with address },
      .defaulted "phone" text fun phone p => { p with phone },
      .defaulted "types" (Json.Decode.list text) fun types p => { p with types },
      .defaulted "priceLevel" (optional text) fun priceLevel p => { p with priceLevel },
      .defaulted "primaryType" text fun primaryType p => { p with primaryType },
      .defaulted "user_ratings_total" (optional (Json.Decode.natUpTo maxRatings))
        fun ratingsTotal p => { p with ratingsTotal },
      .defaulted "heatmap_weight" (Json.Decode.natUpTo maxWeight)
        fun heatmapWeight p => { p with heatmapWeight },
      .defaulted "id" (optional text) fun id p => { p with id }]
    {}

def Feature.ofSource : Decoder Feature :=
  Json.Decode.record
    [.required "type" Json.Decode.text fun kind f => { f with kind },
      .required "geometry" Geometry.ofSource fun geometry f => { f with geometry },
      .required "properties" Properties.ofSource fun properties f => { f with properties }]
    { geometry := { lng := 0.0, lat := 0.0 }, properties := {} }

def Dataset.ofSource : Decoder Dataset :=
  Json.Decode.record
    [.required "features" (Json.Decode.list Feature.ofSource)
        fun features d => { d with features },
      .required "properties" (Json.Decode.list Json.Decode.text)
        fun properties d => { d with properties },
      .defaulted "next_cursor" (Json.Decode.optional Json.Decode.text)
        fun nextCursor d => { d with nextCursor }]
    {}

/-- The dataset that a text reads, if it is one whole document. -/
def Dataset.ofText? (s : String) : Option Dataset :=
  let (x, rest) := Json.Source.ofText s
  if (Json.Source.skipSpace rest).isEmpty then (Dataset.ofSource x).toOption else none

end PlaceSearch
