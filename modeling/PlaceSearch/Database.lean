import PlaceSearch.Cache.Store
import PlaceSearch.Dataset.Json
import PlaceSearch.Decimal.Binary
import PlaceSearch.Walk.Progress

/-!
# The database

Datasets are kept as documents and progress as rows of 64-bit integers with a sign.  A number
that does not fit wraps around; what is negative when it is read back counts as zero, and a
percentage is at most 100.

## Main definitions

* `ProgressRow` — the state of a plan as it is kept.
* `Database` — datasets and rows of progress.
* `Database.datasetStore` — the store of datasets.
* `Database.progressStore` — the store of plan states.
-/

namespace PlaceSearch

/-- A number as a 64-bit integer with a sign. -/
def signedWord (n : Nat) : Int :=
  Int.bmod n (twoPow 64)

/-- The state of a plan as it is kept. -/
structure ProgressRow where
  planName : String
  currentIndex : Int
  progress : Int
  nextCursor : Option String
  lastUpdated : Option Time
  completedAt : Option Time
  apiCalls : Int

namespace ProgressRow

def ofState (s : PlanState) : ProgressRow where
  planName := s.planName
  currentIndex := signedWord s.currentIndex
  progress := signedWord s.progress
  nextCursor := s.nextCursor
  lastUpdated := s.lastUpdated
  completedAt := s.completedAt
  apiCalls := signedWord s.apiCalls

/-- The state that a row reads. -/
def toState (r : ProgressRow) : PlanState where
  planName := r.planName
  currentIndex := r.currentIndex.toNat
  progress := min r.progress.toNat 100
  nextCursor := r.nextCursor
  lastUpdated := r.lastUpdated
  completedAt := r.completedAt
  apiCalls := r.apiCalls.toNat

end ProgressRow

/-- Datasets as documents, and rows of progress by plan. -/
structure Database where
  datasets : Table String := []
  progress : Table ProgressRow := []

namespace Database

def dataset? (key : CacheKey) (t : Table String) : Except Error (Option Dataset) :=
  match t.get? key.canonical with
  | none => .ok none
  | some text =>
    match Dataset.ofText? text with
    | some d => .ok (some d)
    | none => .error (.persistence "the dataset cannot be read")

/-- The datasets with one more. -/
def putDataset (key : CacheKey) (d : Dataset) (t : Table String) : Table String :=
  t.put key.canonical d.toJson.print

def datasetStore : DatasetStore (Table String) where
  get := fun key t =>
    match dataset? key t with
    | .ok found => (.ok found, t)
    | .error e => (.error (.cacheUnavailable e.message), t)
  put := fun key d t => (.ok (), putDataset key d t)

def progressStore : ProgressStore (Table ProgressRow) where
  get := fun name t => .ok ((t.get? name).map ProgressRow.toState)
  set := fun s t => .ok (t.put s.planName (.ofState s))

end Database

end PlaceSearch
