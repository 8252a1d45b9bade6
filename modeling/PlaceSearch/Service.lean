import PlaceSearch.Search
import PlaceSearch.Walk.Walker

/-!
# The service

Two kinds of fetches are answered.  A sample is a single search of the circle asked for.  The
full data of a city are fetched by walking a plan: the caller gets one step, and the rest of
the plan is left to a walk in the background, unless the plan is being walked or was completed
recently.

Background walks are kept in a list until they are settled, which walks each of them to its
end, first started first, or cancelled.

## Main definitions

* `Load` — a walk in the background.
* `Service σ π ρ`, `ServiceState σ π ρ` — a searcher with a walker, and their state.
* `Service.fetchSample`, `Service.fetchFull` — the two kinds of fetches.
* `Service.startLoad`, `Service.cancel`, `Service.settle` — background walks.
-/

namespace PlaceSearch

/-- A walk in the background: a query that is searched in the circles of a plan, from a token
on. -/
structure Load where
  id : Nat
  plan : String
  query : String
  type : SearchType
  token : ResumeToken

/-- What a fetch gives: the places, the text with which the next fetch goes on, the percentage
and the plan of a walk, the requests sent, and the background walk that was started. -/
structure FetchResult where
  collection : Collection
  nextPage : Option String
  progress : Nat
  plan : Option String
  apiCalls : Nat
  load : Option Nat

/-- A searcher with a walker. -/
structure Service (σ π ρ : Type) where
  searcher : Searcher σ
  walker : Walker π ρ

/-- The world of the walks, the number of background walks started so far, and those that
are neither settled nor cancelled, first started first. -/
structure ServiceState (σ π ρ : Type) where
  world : WalkWorld (Session σ) π ρ
  lastId : Nat := 0
  loads : List Load := []

namespace Service

variable {σ π ρ : Type} (s : Service σ π ρ)

/-- Something done in the world of the walks. -/
def inWorld {α : Type} (act : StateM (WalkWorld (Session σ) π ρ) α) :
    StateM (ServiceState σ π ρ) α := fun state =>
  let (x, world) := act.run state.world
  (x, { state with world })

/-- Something done in the session of the searcher. -/
def inSession {α : Type} (act : Process (Session σ) α) : StateM (ServiceState σ π ρ) α :=
  inWorld fun world =>
    let (x, search) := act.run world.search
    (x, { world with search })

/-- The search for a query in every circle. -/
def circleSearch (query : String) (type : SearchType) : CircleSearch (Session σ) := fun geo => do
  return (← s.searcher.searchDataset query type geo).map fun r =>
    ⟨r.dataset, r.nextCursor, r.apiCalls⟩

/-- One search of the circle asked for. -/
def fetchSample (q : SearchRequest) :
    StateM (ServiceState σ π ρ) (Except Error FetchResult) := do
  return (← inSession (s.searcher.search q)).map fun r => {
    collection := r.collection
    nextPage := r.nextCursor
    progress := 100
    plan := none
    apiCalls := r.apiCalls
    load := none }

/-- Starting a background walk; its number is the next one. -/
def startLoad (plan query : String) (type : SearchType) (token : ResumeToken) :
    StateM (ServiceState σ π ρ) Nat := fun state =>
  let id := state.lastId + 1
  (id, { state with lastId := id, loads := state.loads ++ [⟨id, plan, query, type, token⟩] })

/-- A step of the walk over the plan of a city, and a background walk over the rest of it. -/
def fetchFull (q : SearchRequest) (country city : String) :
    StateM (ServiceState σ π ρ) (Except Error FetchResult) := do
  let name := planName q.query country city
  match ResumeToken.decode q.page with
  | .error e => return .error e
  | .ok token =>
    match ← inWorld (s.walker.ensurePlan name q.circle) with
    | .error e => return .error e
    | .ok _ =>
      let now ← inWorld s.walker.now
      let busy ← inWorld (s.walker.isActiveOrDone name now)
      match ← inWorld (s.walker.step (s.circleSearch q.query q.type) name token) with
      | .error e => return .error e
      | .ok step =>
        let load ← if busy || step.exhausted then pure none
          else some <$> startLoad name q.query q.type step.token
        return .ok {
          collection := .ofDataset step.dataset q.keepIds
          nextPage := step.next.map ResumeToken.encode
          progress := step.progress
          plan := some name
          apiCalls := step.apiCalls
          load }

/-- Cancelling a background walk; whether there was one of this number. -/
def cancel (id : Nat) : StateM (ServiceState σ π ρ) Bool := fun state =>
  (state.loads.any (·.id == id), { state with loads := state.loads.filter (·.id != id) })

def activeLoads : StateM (ServiceState σ π ρ) Nat := fun state =>
  (state.loads.length, state)

/-- A background walk, to the end of its plan or its first error; each takes at most `fuel`
steps. -/
def walkLoad (fuel : Nat) (l : Load) : StateM (ServiceState σ π ρ) Unit := do
  let _ ← inWorld (s.walker.walkRemaining (s.circleSearch l.query l.type) l.plan l.token fuel)

/-- All background walks, first started first; none is left afterwards. -/
def settle (fuel : Nat) : StateM (ServiceState σ π ρ) Unit := do
  (← get).loads.forM (s.walkLoad fuel)
  modify fun state => { state with loads := [] }

/-- The state of a plan. -/
def progress (plan : String) :
    StateM (ServiceState σ π ρ) (Except Error (Option PlanState)) :=
  inWorld (s.walker.state plan)

end Service

end PlaceSearch
