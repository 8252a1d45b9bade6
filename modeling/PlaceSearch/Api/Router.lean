import PlaceSearch.Api.Request
import PlaceSearch.Api.Response
import PlaceSearch.Http.MediaType
import PlaceSearch.Http.Message
import PlaceSearch.Http.Percent

/-!
# Answering requests

The service has four routes: two take a document and two take a name in their path.  A
request that does not get as far as the service is answered by its status alone; an error of
the service is told, as the caller's fault or as the service's own.
-/

namespace PlaceSearch

/-- The routes; a name is kept as it is written in the path. -/
inductive Route where
  | compile
  | fetch
  | progress (plan : String)
  | place (id : String)
deriving DecidableEq, Repr

namespace Route

/-- Whether the character may stand in the scheme of an absolute target. -/
def isSchemeChar (c : Char) : Bool :=
  c.isAlphanum || c == '+' || c == '-' || c == '.'

/-- A target from its path on.  An absolute target has a scheme and an authority in front of
the path; any other target without a slash at its beginning has no path. -/
def fromPath (target : List Char) : List Char :=
  if target.head? = some '/' then target
  else match target.dropWhile isSchemeChar with
    | ':' :: '/' :: '/' :: r => r.dropWhile fun c => c != '/' && c != '?' && c != '#'
    | _ => []

/-- The path of a target: what comes before a query or a fragment. -/
def path (target : String) : String :=
  String.ofList ((fromPath target.toList).takeWhile fun c => c != '?' && c != '#')

/-- The route that a target takes. -/
def ofTarget? (target : String) : Option Route :=
  match (path target).splitOn "/" with
  | ["", "v1", "compile"] => some .compile
  | ["", "v1", "fetch_dataset"] => some .fetch
  | ["", "v1", "progress", plan] => if plan.isEmpty then none else some (.progress plan)
  | ["", "v1", "place", id] => if id.isEmpty then none else some (.place id)
  | _ => none

/-- Whether a route answers to a method. -/
def allows : Route → Method → Bool
  | .compile, m | .fetch, m => m == .post
  | .progress _, m | .place _, m => m == .get || m == .head

end Route

namespace HttpResponse

def ok (body : Json) : HttpResponse := { status := 200, body := some body }

def ofError (e : Error) : HttpResponse :=
  { status := if e.isCallers then 400 else 500, body := some e.toJson }

def ofResult : Except Error Json → HttpResponse
  | .ok body => ok body
  | .error e => ofError e

end HttpResponse

/-- The largest content of a request, in bytes. -/
def HttpRequest.maxContent : Nat := 2 * 1024 * 1024

/-- What a request carries as a document, or the status of its refusal: the content must be
told to be a document, not be too large, be a document at its beginning, and fit. -/
def HttpRequest.decode {α : Type} (r : HttpRequest) (d : Json.Decoder α) : Except Nat α :=
  if !(r.contentType.bind MediaType.parse?).any (·.isJson) then .error 415
  else if maxContent < r.content.utf8ByteSize then .error 413
  else match d (Json.Source.ofText r.content).1 with
    | .ok v => .ok v
    | .error .malformed => .error 400
    | .error .mismatched => .error 422

namespace Service

variable {σ π ρ : Type} (s : Service σ π ρ)

/-- How a query is compiled and planned. -/
def compiled (q : CompileRequest) : Except Error Json := do
  let clauses ← compile s.searcher.limits q.query
  let (categories, phrases) ← splitQuery q.query
  let calls ← s.searcher.planCalls q.query q.type
  return compiledJson clauses categories phrases calls

/-- A fetch with the time it took. -/
def fetched (q : FetchRequest) : StateM (ServiceState σ π ρ) (Except Error Json) := do
  let started ← inWorld s.walker.now
  let result ← match q.action with
    | .sample => s.fetchSample q.search
    | .full => s.fetchFull q.search q.country q.city
  match result with
  | .error e => return .error e
  | .ok r =>
    let finished ← inWorld s.walker.now
    return .ok (r.toJson (finished.since started))

/-- The state of a plan, or that there is none. -/
def progressResponse (plan : String) : StateM (ServiceState σ π ρ) HttpResponse := do
  match ← s.progress plan with
  | .ok (some state) => return .ok state.toJson
  | .ok none => return { status := 404 }
  | .error e => return .ofError e

/-- The response of a route to a request that it allows. -/
def respondAt (route : Route) (r : HttpRequest) : StateM (ServiceState σ π ρ) HttpResponse := do
  match route with
  | .compile =>
    match r.decode CompileRequest.ofSource with
    | .error status => return { status }
    | .ok q => return .ofResult (s.compiled q)
  | .fetch =>
    match r.decode FetchRequest.ofSource with
    | .error status => return { status }
    | .ok q => return .ofResult (← s.fetched q)
  | .progress plan =>
    match Percent.decode? plan with
    | none => return { status := 400 }
    | some plan => s.progressResponse plan
  | .place id =>
    match Percent.decode? id with
    | none => return { status := 400 }
    | some id => return .ok (← inSession (s.searcher.placeDetails id)).toJson

/-- The response to a request.  Asking for options is always granted; asking for the head of a
document leaves the document out. -/
def respond (r : HttpRequest) : StateM (ServiceState σ π ρ) HttpResponse := do
  if r.method = .options then return { status := 200 }
  match Route.ofTarget? r.target with
  | none => return { status := 404 }
  | some route =>
    if !route.allows r.method then return { status := 405 }
    let response ← s.respondAt route r
    return if r.method = .head then { response with body := none } else response

end Service

end PlaceSearch
