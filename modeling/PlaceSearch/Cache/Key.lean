import PlaceSearch.Call.Descriptor
import PlaceSearch.Decimal.Fixed
import PlaceSearch.Geo
import PlaceSearch.Sorted
import PlaceSearch.Text.Blank
import PlaceSearch.Text.Digest
import PlaceSearch.Text.Lower

/-!
# Cache keys

A cached dataset is known by a text that says which request it answers: what was searched
for, where, and which page.  Terms are sorted and named once, coordinates have six decimals
and the radius one, so that requests that mean the same share a key.
-/

namespace PlaceSearch

/-- The text by which a cached dataset is known. -/
structure CacheKey where
  canonical : String
deriving DecidableEq, Repr

namespace CacheKey

/-- Some terms, sorted and each named once. -/
def termList (terms : List String) : String :=
  ",".intercalate (Sorted.ofList terms)

/-- The key of a request. -/
def build (scope : String) (geo : Geo) (included excluded : List String) : CacheKey :=
  let c := geo.circle
  ⟨scope ++ "|" ++ Decimal.fixed 6 c.center.lat ++ "," ++ Decimal.fixed 6 c.center.lng
    ++ "|" ++ Decimal.fixed 1 c.radius ++ "|+" ++ termList included ++ "|-"
    ++ termList excluded ++ "|" ++ geo.page.getD ""⟩

def ofDescriptor (d : CallDescriptor) (geo : Geo) : CacheKey :=
  build d.kind.name geo d.included d.excluded

/-- The key of a call without exclusions. -/
def partialAnswer (kind : SearchKind) (terms : List String) (geo : Geo) : CacheKey :=
  build kind.name geo terms []

/-- The key of a whole query, in lower case with single blanks between its words. -/
def ofQuery (query searchType : String) (geo : Geo) : CacheKey :=
  build ("query:" ++ searchType) geo [Text.lower (" ".intercalate (Text.words query))] []

/-- The name of fixed width under which a dataset is stored. -/
def digest (k : CacheKey) : String :=
  Text.digest k.canonical

/-- A call that excludes nothing has the key of its plain answer. -/
theorem ofDescriptor_of_excluded_eq_nil {d : CallDescriptor} (h : d.excluded = [])
    (geo : Geo) : ofDescriptor d geo = partialAnswer d.kind d.included geo := by
  simp [ofDescriptor, partialAnswer, h]

end CacheKey

end PlaceSearch
