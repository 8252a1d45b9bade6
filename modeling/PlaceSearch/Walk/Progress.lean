import PlaceSearch.Error
import PlaceSearch.Table
import PlaceSearch.Time
import PlaceSearch.Walk.ResumeToken

/-!
# Progress of plans

How far the walk over a plan has come is kept by the plan's name.  The percentage of a plan
stays below 100 until the plan is completed, and never falls.

## Main definitions

* `PlanState` — how far a plan is.
* `PlanState.isComplete` — whether it is completed.
* `PlanState.afterPage`, `PlanState.afterCompletion` — what a page and the end of the plan do
  to it.
* `ProgressStore ρ` — a store of plan states.
* `ProgressStore.inMemory`, `ProgressStore.broken` — one that never fails, one that always
  does.
-/

namespace PlaceSearch

/-- How far the walk over a plan has come: the row and cursor it goes on with, the
percentage, the times of the last change and of completion, and the requests sent.

Requests are counted without a bound.  A counter of 64 bits agrees with it as long as fewer than
`2 ^ 64` requests are sent for the plan. -/
structure PlanState where
  planName : String
  currentIndex : Nat := 0
  progress : Nat := 0
  nextCursor : Option String := none
  lastUpdated : Option Time := none
  completedAt : Option Time := none
  apiCalls : Nat := 0
deriving DecidableEq, Repr

namespace PlanState

def isComplete (s : PlanState) : Bool :=
  s.progress ≥ 100

/-- The state after a page was searched, where `next` is what the walk goes on with. -/
def afterPage (s : PlanState) (next : ResumeToken) (progress apiCalls : Nat) (now : Time) :
    PlanState :=
  { s with
    currentIndex := next.row
    nextCursor := next.cursor
    progress := if s.isComplete then s.progress else min (max s.progress progress) 99
    lastUpdated := some now
    apiCalls := s.apiCalls + apiCalls }

/-- The state after the end of a plan of `size` rows was reached. -/
def afterCompletion (s : PlanState) (size : Nat) (now : Time) : PlanState :=
  { s with
    currentIndex := size
    nextCursor := none
    progress := 100
    lastUpdated := some now
    completedAt := some now }

end PlanState

/-- A store of plan states by plan name.  A write that fails leaves the store as it was. -/
structure ProgressStore (ρ : Type) where
  get : String → ρ → Except Error (Option PlanState)
  set : PlanState → ρ → Except Error ρ

namespace ProgressStore

/-- A store that keeps the state last written for each plan. -/
def inMemory : ProgressStore (Table PlanState) where
  get := fun name t => .ok (t.get? name)
  set := fun s t => .ok (t.put s.planName s)

/-- A store that always fails. -/
def broken {ρ : Type} (reason : String) : ProgressStore ρ where
  get := fun _ _ => .error (.persistence reason)
  set := fun _ _ => .error (.persistence reason)

variable {ρ : Type} (store : ProgressStore ρ)

/-- The state of a plan to go on from; a new one if there is none or the store fails. -/
def load (name : String) (r : ρ) : PlanState :=
  match store.get name r with
  | .ok (some s) => s
  | _ => { planName := name }

/-- The store after a change to the state of a plan; unchanged if the store fails. -/
def update (name : String) (change : PlanState → PlanState) (r : ρ) : ρ :=
  match store.set (change (store.load name r)) r with
  | .ok r => r
  | .error _ => r

end ProgressStore

end PlaceSearch
