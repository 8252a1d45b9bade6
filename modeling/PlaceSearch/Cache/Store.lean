import PlaceSearch.Cache.Key
import PlaceSearch.Dataset.Basic
import PlaceSearch.Error
import PlaceSearch.Table

/-!
# Stores of datasets

A store keeps datasets by key.  Reading and writing may fail, each for itself; what happens
may depend on everything done before, which is in the state of the store.

## Main definitions

* `DatasetStore σ` — a store with states of type `σ`.
* `DatasetStore.inMemory` — a store that keeps everything and never fails.
* `DatasetStore.unavailable` — a store that always fails.
-/

namespace PlaceSearch

/-- A store of datasets by key. -/
structure DatasetStore (σ : Type) where
  get : CacheKey → StateM σ (Except Error (Option Dataset))
  put : CacheKey → Dataset → StateM σ (Except Error Unit)

namespace DatasetStore

/-- A store that keeps the dataset last written under each key. -/
def inMemory : DatasetStore (Table Dataset) where
  get := fun key t => (.ok (t.get? key.canonical), t)
  put := fun key d t => (.ok (), t.put key.canonical d)

/-- A store that cannot be reached. -/
def unavailable {σ : Type} (reason : String) : DatasetStore σ where
  get := fun _ s => (.error (.cacheUnavailable reason), s)
  put := fun _ _ s => (.error (.cacheUnavailable reason), s)

end DatasetStore

end PlaceSearch
