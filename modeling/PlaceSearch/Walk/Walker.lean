import PlaceSearch.Dataset.Basic
import PlaceSearch.Plan.Generate
import PlaceSearch.Plan.Source
import PlaceSearch.Walk.Progress

/-!
# Walks over plans

A plan is walked row by row, in order, one circle after the other.  A circle with too few
places is rectified: all circles below it are marked as passed over, in the plan at hand and
in its source.  A step of a walk ends with the first circle that has any place, at the end of
the plan, or after too many empty circles in a row.

A walk goes through a world of four parts: whatever the search of a circle works on, the
source of plans, the store of progress, and the number of times the clock was read.  A source
or store that fails to record what happened does not stop the walk.

## Main definitions

* `CircleResult`, `CircleSearch` — what one search of one circle gave, and such a search.
* `WalkerSettings` — when circles are rectified, and how long a plan counts as fresh.
* `Walker π ρ`, `WalkWorld ω π ρ` — a walker, and the world it walks in.
* `Walker.step` — one step of a walk.
* `Walker.walkRemaining`, `Walker.runToCompletion` — a walk to the end of the plan.
* `Walker.ensurePlan` — the plan of a circle, made if there is none.
* `Walker.isActiveOrDone` — whether a plan is being walked or was completed recently.
-/

namespace PlaceSearch

/-- What one search of one circle gave; the requests it took are counted without a bound, as in
`PlanState`. -/
structure CircleResult where
  dataset : Dataset := {}
  nextCursor : Option String := none
  apiCalls : Nat := 0

/-- A search that can be done in every circle. -/
abbrev CircleSearch (ω : Type) := Geo → StateM ω (Except Error CircleResult)

/-- Which circles are rectified: only empty ones, or all with fewer places than a minimum. -/
inductive RectifyRule where
  | whenEmpty
  | below (minimum : Nat)
deriving DecidableEq, Repr

/-- Whether a circle with so many places is rectified. -/
def RectifyRule.rectifies (rule : RectifyRule) (found : Nat) : Bool :=
  match rule with
  | .whenEmpty => found == 0
  | .below minimum => found < minimum

/-- When circles are rectified, how many empty circles in a row a step goes through, how long
a plan counts as being walked after a change and as done after its completion, and the
smallest radius of a circle of a plan that is made. -/
structure WalkerSettings where
  rectify : RectifyRule := .whenEmpty
  maxEmptySteps : Nat := 30
  inProgressWindow : Int := secondsApart 30
  completedWindow : Int := secondsApart (90 * secondsPerDay)
  minRadius : Float := 2000.0

/-- The world of a walk. -/
structure WalkWorld (ω π ρ : Type) where
  search : ω
  plans : π
  progress : ρ
  readings : Nat := 0

/-- The search of one circle in the world of a walk. -/
def searchCircle {ω π ρ : Type} (search : CircleSearch ω) (geo : Geo) :
    StateM (WalkWorld ω π ρ) (Except Error CircleResult) := fun world =>
  let (found, s) := (search geo).run world.search
  (found, { world with search := s })

/-- One step of a walk: its dataset, where to go on, unless it cannot go on from there, the
percentage, the requests sent, whether the end of the plan was reached, and the row that the
walk goes on with even if the step says nothing about it. -/
structure WalkStep where
  dataset : Dataset
  next : Option ResumeToken
  progress : Nat
  apiCalls : Nat
  exhausted : Bool
  resumeAt : Nat

/-- Where a walk goes on after a step. -/
def WalkStep.token (s : WalkStep) : ResumeToken :=
  s.next.getD (.of none s.resumeAt)

/-- How a walk ended: it was not needed, or it reached the end of the plan after so many
steps, requests and features, all of them counted without a bound. -/
inductive WalkOutcome where
  | skipped
  | completed (steps apiCalls features : Nat)
deriving DecidableEq, Repr

/-- A walker: where plans and progress are kept, its settings, and the clock, as the time
told at each reading. -/
structure Walker (π ρ : Type) where
  plans : PlanSource π
  progress : ProgressStore ρ
  settings : WalkerSettings := {}
  clock : Nat → Time

namespace Walker

variable {ω π ρ : Type} (w : Walker π ρ)

def now : StateM (WalkWorld ω π ρ) Time := fun world =>
  (w.clock world.readings, { world with readings := world.readings + 1 })

def state (name : String) : StateM (WalkWorld ω π ρ) (Except Error (Option PlanState)) :=
  fun world => (w.progress.get name world.progress, world)

def readPlan (name : String) : StateM (WalkWorld ω π ρ) (Except Error (List String)) :=
  fun world => (w.plans.read name world.plans, world)

def writePlan (name : String) (rows : List String) :
    StateM (WalkWorld ω π ρ) (Except Error Unit) := fun world =>
  let (written, plans) := (w.plans.write name rows).run world.plans
  (written, { world with plans })

/-- The plan of a name.  If there is none, the plan of a circle is made and written; any
other failure to read it is told. -/
def ensurePlan (name : String) (root : Circle) :
    StateM (WalkWorld ω π ρ) (Except Error Plan) := do
  match ← w.readPlan name with
  | .ok rows => return Plan.ofRows name rows
  | .error (.planNotFound _) =>
    let rows := generatePlan root w.settings.minRadius
    match ← w.writePlan name rows with
    | .ok _ => return Plan.ofRows name rows
    | .error e => return .error e
  | .error e => return .error e

/-- Whether a plan in a state is being walked or was completed recently. -/
def isFresh (s : PlanState) (now : Time) : Bool :=
  if s.isComplete then s.completedAt.any (now.since · < w.settings.completedWindow)
  else s.lastUpdated.any (now.since · < w.settings.inProgressWindow)

/-- Whether a plan is being walked or was completed recently, as far as its progress can be
told. -/
def isActiveOrDone (name : String) (now : Time) : StateM (WalkWorld ω π ρ) Bool := do
  match ← w.state name with
  | .ok (some s) => return w.isFresh s now
  | _ => return false

/-- Recording a change to the state of a plan at the present time. -/
def record (name : String) (change : Time → PlanState → PlanState) :
    StateM (WalkWorld ω π ρ) Unit := do
  let now ← w.now
  modify fun world => { world with progress := w.progress.update name (change now) world.progress }

/-- The plan after a circle with so many places was searched; if that changes it, it is
written to its source. -/
def rectify (plan : Plan) (level : String) (found : Nat) :
    StateM (WalkWorld ω π ρ) Plan := do
  if !w.settings.rectify.rectifies found || plan.countBelow level == 0 then return plan
  else
    let plan := plan.skipBelow level
    let _ ← w.writePlan plan.name plan.rows
    return plan

/-- A step from a row and cursor on that goes through at most `budget` further circles, after
`apiCalls` requests. -/
def stepFrom (search : CircleSearch ω) (plan : Plan) (start : Nat) (cursor : Option String)
    (apiCalls : Nat) : Nat → StateM (WalkWorld ω π ρ) (Except Error WalkStep)
  | 0 => return .ok {
      dataset := {}
      next := none
      progress := plan.progressAt start
      apiCalls
      exhausted := false
      resumeAt := start }
  | budget + 1 => do
    match plan.nextCircle start with
    | none =>
      w.record plan.name fun now s => s.afterCompletion plan.size now
      return .ok {
        dataset := {}
        next := none
        progress := 100
        apiCalls
        exhausted := true
        resumeAt := plan.size }
    | some (index, level, circle) =>
      match ← searchCircle search ((Geo.ofCircle circle).atPage cursor) with
      | .error e => return .error e
      | .ok found =>
        let next := match found.nextCursor with
          | some c => ResumeToken.of (some c) index
          | none => ResumeToken.of none (index + 1)
        let progress := plan.progressAt next.row
        w.record plan.name fun now s => s.afterPage next progress found.apiCalls now
        let plan ← w.rectify plan level found.dataset.size
        if found.dataset.isEmpty then
          stepFrom search plan (index + 1) none (apiCalls + found.apiCalls) budget
        else return .ok {
          dataset := found.dataset
          next := some next
          progress
          apiCalls := apiCalls + found.apiCalls
          exhausted := false
          resumeAt := next.row }

/-- One step of a walk from a token on. -/
def step (search : CircleSearch ω) (name : String) (token : ResumeToken) :
    StateM (WalkWorld ω π ρ) (Except Error WalkStep) := do
  match ← w.readPlan name with
  | .error e => return .error e
  | .ok rows =>
    match Plan.ofRows name rows with
    | .error e => return .error e
    | .ok plan => w.stepFrom search plan token.row token.cursor 0 w.settings.maxEmptySteps

/-- The steps from a token to the end of the plan, after some steps, requests and features;
nothing if `fuel` steps do not reach it. -/
def walkFrom (search : CircleSearch ω) (name : String) (token : ResumeToken)
    (steps apiCalls features : Nat) :
    Nat → StateM (WalkWorld ω π ρ) (Option (Except Error WalkOutcome))
  | 0 => return none
  | fuel + 1 => do
    match ← w.step search name token with
    | .error e => return some (.error e)
    | .ok s =>
      let steps := steps + 1
      let apiCalls := apiCalls + s.apiCalls
      let features := features + s.dataset.size
      if s.exhausted then return some (.ok (.completed steps apiCalls features))
      else walkFrom search name s.token steps apiCalls features fuel

/-- The walk from a token to the end of the plan. -/
def walkRemaining (search : CircleSearch ω) (name : String) (token : ResumeToken)
    (fuel : Nat) : StateM (WalkWorld ω π ρ) (Option (Except Error WalkOutcome)) :=
  w.walkFrom search name token 0 0 0 fuel

/-- The walk to the end of the plan, unless the plan is being walked or was completed
recently. -/
def runToCompletion (search : CircleSearch ω) (name : String) (token : ResumeToken)
    (fuel : Nat) : StateM (WalkWorld ω π ρ) (Option (Except Error WalkOutcome)) := do
  if ← w.isActiveOrDone name (← w.now) then return some (.ok .skipped)
  else w.walkRemaining search name token fuel

end Walker

end PlaceSearch
