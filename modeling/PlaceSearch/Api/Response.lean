import PlaceSearch.Dataset.Json
import PlaceSearch.Service
import PlaceSearch.Timestamp

/-!
# What the service answers

Every answer of the service is a document: the calls of a compiled query, the state of a plan, what
a fetch has found, or an error.
-/

namespace PlaceSearch

def CallDescriptor.toJson (d : CallDescriptor) : Json :=
  Json.object [("included", .ofTexts d.included), ("excluded", .ofTexts d.excluded),
    ("kind", .str d.kind.name)]

/-- The document of a compiled query: its clauses, its two halves and its calls. -/
def compiledJson (clauses : List Clause) (categories phrases : String)
    (calls : List CallDescriptor) : Json :=
  Json.object [("status", .str "ok"), ("clauses", .ofTexts (clauses.map Clause.render)),
    ("categories", .str categories), ("keywords", .str phrases),
    ("calls", .arr (calls.map CallDescriptor.toJson))]

def PlanState.toJson (s : PlanState) : Json :=
  Json.object [("plan_name", .str s.planName), ("current_index", .ofNat s.currentIndex),
    ("progress", .ofNat s.progress), ("next_page_token", .ofText? s.nextCursor),
    ("last_updated", .ofText? (s.lastUpdated.map timestamp)),
    ("completed_at", .ofText? (s.completedAt.map timestamp)),
    ("api_call_count", .ofNat s.apiCalls)]

def milliseconds (nanos : Int) : Float :=
  Float.ofInt nanos / 1000000.0

/-- The document of a fetch that took some time; the plan and the background walk are left
out if there are none. -/
def FetchResult.toJson (r : FetchResult) (took : Int) : Json :=
  Json.object <|
    [("status", .str "ok"), ("elapsed_ms", .ofFloat (milliseconds took)),
      ("data", r.collection.toJson), ("next_page_token", .ofText? r.nextPage),
      ("progress", .ofNat r.progress), ("api_calls", .ofNat r.apiCalls)]
    ++ (r.plan.toList.map fun p => ("plan_name", .str p))
    ++ (r.load.toList.map fun id => ("load_id", .ofNat id))

def Error.toJson (e : Error) : Json :=
  Json.object [("status", .str "error"), ("error", .str e.message)]

end PlaceSearch
