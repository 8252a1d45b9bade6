import PlaceSearch.Cache.Store
import PlaceSearch.Provider.Execute

/-!
# Resolving calls

A call is answered from the store of datasets if it can be, and by the provider otherwise.
A store that fails is treated as one that holds nothing.  Only whole answers are kept: not
those of a call that failed, nor those of an older shape that left something out.

A search by category that excludes types is also answered by two stored answers, the one to
the included types less the one to the excluded types.  A search by text is put together from
the answers to its phrases one by one: the places common to all included phrases, less the
places of any excluded one.  Only the answer to a single included phrase has pages.

Each access to the store and each request is an act of its own, so that between what a call finds
and what it keeps other calls may have sent and kept something else.
-/

namespace PlaceSearch

/-- The requests sent so far, latest first, the state of the store, and how many turns were taken by
calls that were resolved together. -/
structure Session (σ : Type) where
  sent : List Request := []
  store : σ
  turns : Nat := 0

/-- A dataset with what it took to get it: the requests sent, whether some call ended in a
stand-in, and whether some call was answered in part only. -/
structure Resolved where
  dataset : Dataset := {}
  nextCursor : Option String := none
  apiCalls : Nat := 0
  degraded : Bool := false
  incomplete : Bool := false

namespace Resolved

/-- A stored dataset takes nothing. -/
def ofCached (d : Dataset) : Resolved :=
  { dataset := d, nextCursor := d.nextCursor }

/-- What a call gave. -/
def ofOutcome (r : Outcome) : Resolved where
  dataset := r.dataset
  nextCursor := r.nextCursor
  apiCalls := r.attempts
  degraded := r.failed
  incomplete := !r.complete

/-- Only a whole answer is worth keeping. -/
def cacheable (r : Resolved) : Bool :=
  !r.degraded && !r.incomplete

/-- A dataset made from several answers, with what all of them took. -/
def combine (parts : List Resolved) (dataset : Dataset) (cursor : Option String) :
    Resolved where
  dataset := dataset.withNextCursor cursor
  nextCursor := cursor
  apiCalls := parts.foldr (fun r calls => r.apiCalls + calls) 0
  degraded := parts.any (·.degraded)
  incomplete := parts.any (·.incomplete)

end Resolved

/-- The features of the first dataset that are in all others too. -/
def Dataset.common : List Dataset → Dataset
  | [] => {}
  | d :: ds => ds.foldl Dataset.intersection d

/-- A provider and a store of datasets. -/
structure Resolver (σ : Type) where
  transport : Transport
  policy : RetryPolicy
  store : DatasetStore σ

namespace Resolver

variable {σ : Type} (r : Resolver σ)

/-- The stored dataset of a key; none if the store fails. -/
def lookup (key : CacheKey) : StateM (Session σ) (Option Dataset) := fun s =>
  let (found, store) := (r.store.get key).run s.store
  ((found.toOption).join, { s with store })

/-- Keeping a dataset, unless it holds a stand-in; a store that fails is left alone. -/
def keep (key : CacheKey) (d : Dataset) : StateM (Session σ) Unit := fun s =>
  if d.isDegraded then ((), s)
  else ((), { s with store := ((r.store.put key d).run s.store).2 })

/-- Keeping an answer, if it is whole. -/
def keepWhole (key : CacheKey) (answer : Resolved) : StateM (Session σ) Unit :=
  if answer.cacheable then r.keep key answer.dataset else pure ()

/-- A call to the provider. -/
def call (request : Request) : Process (Session σ) Outcome :=
  (execute r.transport r.policy request).within Session.sent fun s sent => { s with sent }

/-- The answer to one phrase. -/
def fetchPhrase (geo : Geo) (phrase : String) : Process (Session σ) Resolved := do
  let key := CacheKey.partialAnswer .text [phrase] geo
  match ← r.lookup key with
  | some d => return .ofCached d
  | none =>
    let answer := Resolved.ofOutcome (← r.call (.ofPhrase geo phrase))
    r.keepWhole key answer
    return answer

/-- The stored answer to the included types less the one to the excluded types. -/
def composed (d : CallDescriptor) (geo : Geo) : Process (Session σ) (Option Dataset) := do
  if d.excluded.isEmpty then return none
  match ← r.lookup (.partialAnswer .category d.included geo) with
  | none => return none
  | some included =>
    match ← r.lookup (.partialAnswer .category d.excluded geo) with
    | none => return none
    | some excluded => return some (included.difference excluded)

/-- The answer to a search by category. -/
def resolveCategory (d : CallDescriptor) (geo : Geo) : Process (Session σ) Resolved := do
  match ← r.composed d geo with
  | some dataset => return .ofCached dataset
  | none => return .ofOutcome (← r.call (.ofCategories geo d.included d.excluded))

/-- The answer to a search by text.  Without an included phrase it is empty. -/
def resolveText (d : CallDescriptor) (geo : Geo) : Process (Session σ) Resolved := do
  if d.included.isEmpty then return {}
  let paged := d.included.length = 1
  let included ← d.included.mapM (r.fetchPhrase (if paged then geo else geo.firstPage))
  let excluded ← d.excluded.mapM (r.fetchPhrase geo.firstPage)
  let datasets (parts : List Resolved) := parts.map (·.dataset)
  return .combine (included ++ excluded)
    ((Dataset.common (datasets included)).difference (Dataset.union (datasets excluded)))
    (if paged then included.head?.bind (·.nextCursor) else none)

/-- The answer to a call. -/
def resolve (d : CallDescriptor) (geo : Geo) : Process (Session σ) Resolved := do
  let key := CacheKey.ofDescriptor d geo
  match ← r.lookup key with
  | some dataset => return .ofCached dataset
  | none =>
    let answer ← match d.kind with
      | .category => r.resolveCategory d geo
      | .text => r.resolveText d geo
    r.keepWhole key answer
    return answer

end Resolver

end PlaceSearch
