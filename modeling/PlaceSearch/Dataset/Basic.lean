import PlaceSearch.Dataset.Feature
import PlaceSearch.Sorted

/-!
# Datasets

A dataset is a list of features, each id at most once, with the names of their properties and
the provider's cursor to the next page.  Of two features with one id the first stays; features
without an id cannot be told apart and all stay.
-/

namespace PlaceSearch

/-- Features with the names of their properties and the cursor to the next page. -/
structure Dataset where
  features : List Feature := []
  properties : List String := []
  nextCursor : Option String := none

namespace Dataset

def ids (d : Dataset) : List String :=
  d.features.filterMap Feature.id?

def withNextCursor (d : Dataset) (cursor : Option String) : Dataset :=
  { d with nextCursor := cursor }

def size (d : Dataset) : Nat :=
  d.features.length

/-- Whether there are no features. -/
def isEmpty (d : Dataset) : Bool :=
  d.features.isEmpty

/-- Whether some feature stands for the answer to a failed call. -/
def isDegraded (d : Dataset) : Bool :=
  d.features.any Feature.isFailed

/-- The features whose id was neither seen before nor stands on an earlier one. -/
def fresh (seen : List String) : List Feature → List Feature
  | [] => []
  | f :: fs =>
    match f.id? with
    | none => f :: fresh seen fs
    | some id => if seen.contains id then fresh seen fs else f :: fresh (id :: seen) fs

/-- The dataset with further features, as far as their ids are new.  A dataset that gets its
first feature names the usual properties. -/
def append (d : Dataset) (fs : List Feature) : Dataset :=
  let features := d.features ++ fresh d.ids fs
  { d with
    features
    properties :=
      if !features.isEmpty && d.properties.isEmpty then Feature.propertyNames
      else d.properties }

def ofFeatures (fs : List Feature) : Dataset :=
  append {} fs

/-- The features of the first dataset whose id is not in the second; those without an id
stay. -/
def difference (a b : Dataset) : Dataset :=
  let taken := b.ids
  ofFeatures (a.features.filter fun f =>
    match f.id? with
    | none => true
    | some id => !taken.contains id)

/-- The features of the first dataset whose id is also in the second. -/
def intersection (a b : Dataset) : Dataset :=
  let kept := b.ids
  ofFeatures (a.features.filter fun f =>
    match f.id? with
    | none => false
    | some id => kept.contains id)

/-- All features of some datasets one after the other, each id once.  The names of the
properties are those of all datasets, sorted. -/
def union (ds : List Dataset) : Dataset :=
  let combined := ds.foldl (fun acc d => acc.append d.features) {}
  let properties := Sorted.ofList (ds.flatMap (·.properties))
  if properties.isEmpty then combined else { combined with properties }

end Dataset

/-- A dataset as it is answered. -/
structure Collection where
  kind : String := "FeatureCollection"
  features : List Feature
  properties : List String

namespace Collection

/-- A dataset as it is answered; ids are for internal use and left out unless asked for. -/
def ofDataset (d : Dataset) (keepIds : Bool) : Collection where
  features := if keepIds then d.features else d.features.map Feature.withoutId
  properties := d.properties

def empty : Collection :=
  ofDataset {} false

end Collection

end PlaceSearch
