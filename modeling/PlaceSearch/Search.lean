import PlaceSearch.Cache.Resolver
import PlaceSearch.Call.Optimize
import PlaceSearch.NormalForm.Compile
import PlaceSearch.Query.Split

/-!
# Searches

A search is planned as a list of calls, the calls are resolved together, and the answers are put
together, every place once.  A whole query that was answered before is answered from the
store without planning anything.

Calls that are resolved together take turns: while one of them waits for a pause to be over, the
others go on, and what one of them keeps another may find.  Whose turn it is is left to a schedule.
-/

namespace PlaceSearch

/-- What parts of a query are searched for: its categories, its phrases, or both. -/
inductive SearchType where
  | categories
  | phrases
  | both
deriving DecidableEq, Repr

namespace SearchType

def name : SearchType → String
  | .categories => "category_search"
  | .phrases => "keyword_search"
  | .both => "both"

def hasCategories : SearchType → Bool
  | .phrases => false
  | _ => true

def hasPhrases : SearchType → Bool
  | .categories => false
  | _ => true

end SearchType

/-- A search for a query in a circle, on a page of the answer; places keep their ids if asked
to. -/
structure SearchRequest where
  query : String
  type : SearchType
  circle : Circle
  page : Option String
  keepIds : Bool

def SearchRequest.geo (q : SearchRequest) : Geo :=
  (Geo.ofCircle q.circle).atPage q.page

/-- The answer to a search. -/
structure SearchResult where
  collection : Collection
  nextCursor : Option String
  apiCalls : Nat

/-- The number of turns goes up. -/
def Session.tick {σ : Type} (session : Session σ) : Session σ :=
  { session with turns := session.turns + 1 }

/-- A resolver with limits on queries and a popularity table, and a schedule for calls that are
resolved together. -/
structure Searcher (σ : Type) extends Resolver σ where
  limits : Limits := {}
  popularity : Popularity := .empty
  schedule : Schedule := .byClock

namespace Searcher

variable {σ : Type} (s : Searcher σ)

/-- The calls for one half of a query, none if the half is empty. -/
def planHalf (calls : List Clause → List CallDescriptor) (half : String) :
    Except Error (List CallDescriptor) :=
  if half.isEmpty then .ok [] else (compile s.limits half).map calls

/-- The calls that together answer a query.  The limits hold for the query as a whole and
for each half of it. -/
def planCalls (query : String) (type : SearchType) : Except Error (List CallDescriptor) := do
  let _ ← compile s.limits query
  let (categories, phrases) ← splitQuery query
  let first ← if type.hasCategories then
      s.planHalf (optimize · (some s.popularity)) categories
    else pure []
  let second ← if type.hasPhrases then s.planHalf keywordCalls phrases else pure []
  return first ++ second

/-- The answers to all calls, every place once; the cursor is the first one of any answer. -/
def gather (parts : List Resolved) : Resolved :=
  .combine parts (Dataset.union (parts.map (·.dataset))) (parts.findSome? (·.nextCursor))

/-- The answers to some calls that take turns. -/
def resolveAll (calls : List CallDescriptor) (geo : Geo) : Process (Session σ) (List Resolved) :=
  (Turns.together (calls.map fun d => s.resolve d geo)).play
    (fun session due => s.schedule session.turns due) Session.tick

/-- The dataset of a query, with ids. -/
def searchDataset (query : String) (type : SearchType) (geo : Geo) :
    Process (Session σ) (Except Error Resolved) := do
  let key := CacheKey.ofQuery query type.name geo
  match ← s.lookup key with
  | some d => return .ok (.ofCached d)
  | none =>
    match s.planCalls query type with
    | .error e => return .error e
    | .ok calls =>
      let answer := gather (← s.resolveAll calls geo)
      s.keepWhole key answer
      return .ok answer

/-- The answer to a search. -/
def search (q : SearchRequest) : Process (Session σ) (Except Error SearchResult) := do
  return (← s.searchDataset q.query q.type q.geo).map fun r =>
    ⟨.ofDataset r.dataset q.keepIds, r.nextCursor, r.apiCalls⟩

/-- What is known of one place. -/
def placeDetails (id : String) : Process (Session σ) Collection := do
  return .ofDataset (← s.call (.details id)).dataset true

end Searcher

end PlaceSearch
