import PlaceSearch.Proofs.Plan.Mark
import PlaceSearch.Proofs.Walk.Record
import PlaceSearch.Walk.Walker

/-!
# The steps of a walk

A step reads one page after the other.  What a page does to the plan at hand and to the world, and
where the walk goes on after it, depends on the page and the plan alone, not on the step it is
read in.  A step ends in one of four ways: too many empty pages, the end of the plan, a search
that fails, or a page with features.
-/

namespace PlaceSearch

/-- A page of a row that was read: the row and its level, what was asked for and what was found. -/
structure Visit where
  row : Nat
  level : String
  geo : Geo
  found : CircleResult

namespace Visit

/-- Where a walk can go on after a page: with the next page of its row, if the page names one, and
else with the next row. -/
def token (v : Visit) : ResumeToken :=
  match v.found.nextCursor with
  | some c => .of (some c) v.row
  | none => .of none (v.row + 1)

/-- Where the walk goes on after a page: a page without features is followed by the next row. -/
def next (v : Visit) : ResumeToken :=
  if v.found.dataset.isEmpty then .of none (v.row + 1) else v.token

end Visit

/-- The page that a search reads next from a token on: of the next circle of the plan, at the cursor
of the token. -/
structure CircleSearch.Finds {ω : Type} (search : CircleSearch ω) (plan : Plan)
    (token : ResumeToken) (state : ω) (v : Visit) : Prop where
  circle : plan.nextCircle token.row = some (v.row, v.level, v.geo.circle)
  geo : v.geo = (Geo.ofCircle v.geo.circle).atPage token.cursor
  answer : ((search v.geo).run state).1 = .ok v.found

/-- A step that ends with too many empty pages. -/
def WalkStep.tired (plan : Plan) (start apiCalls : Nat) : WalkStep where
  dataset := {}
  next := none
  progress := plan.progressAt start
  apiCalls := apiCalls
  exhausted := false
  resumeAt := start

/-- A step that ends with the end of the plan. -/
def WalkStep.finished (plan : Plan) (apiCalls : Nat) : WalkStep where
  dataset := {}
  next := none
  progress := 100
  apiCalls := apiCalls
  exhausted := true
  resumeAt := plan.size

/-- A step that ends with a page with features. -/
def WalkStep.accepted (plan : Plan) (v : Visit) (apiCalls : Nat) : WalkStep where
  dataset := v.found.dataset
  next := some v.token
  progress := plan.progressAt v.token.row
  apiCalls := apiCalls
  exhausted := false
  resumeAt := v.token.row

namespace Walker

variable {ω π ρ : Type} (w : Walker π ρ) (search : CircleSearch ω)

/-- The plan of a name as its source has it. -/
def planOf (name : String) (world : WalkWorld ω π ρ) : Except Error Plan :=
  (w.plans.read name world.plans).bind (Plan.ofRows name)

/-- The plan at hand after a page. -/
def planAfter (plan : Plan) (v : Visit) : Plan :=
  if w.settings.rectify.rectifies v.found.dataset.size then plan.skipBelow v.level else plan

/-- The source of plans after a page: the plan is written if circles of it were marked. -/
def plansAfter (plan : Plan) (v : Visit) (plans : π) : π :=
  if w.settings.rectify.rectifies v.found.dataset.size && plan.countBelow v.level != 0 then
    ((w.plans.write plan.name (plan.skipBelow v.level).rows).run plans).2
  else plans

/-- The world after a page. -/
def worldAfter (plan : Plan) (v : Visit) (world : WalkWorld ω π ρ) : WalkWorld ω π ρ where
  search := ((search v.geo).run world.search).2
  plans := w.plansAfter plan v world.plans
  progress := w.progress.update plan.name
    (·.afterPage v.token (plan.progressAt v.token.row) v.found.apiCalls (w.clock world.readings))
    world.progress
  readings := world.readings + 1

/-- The world after the end of a plan was reached. -/
def worldAtEnd (plan : Plan) (world : WalkWorld ω π ρ) : WalkWorld ω π ρ :=
  { world with
    progress := w.progress.update plan.name
      (·.afterCompletion plan.size (w.clock world.readings)) world.progress
    readings := world.readings + 1 }

/-- The pages that a step reads from a token on, if it goes through at most `budget` further empty
ones. -/
def visitsFrom (plan : Plan) (token : ResumeToken) : Nat → WalkWorld ω π ρ → List Visit
  | 0, _ => []
  | budget + 1, world =>
    match plan.nextCircle token.row with
    | none => []
    | some (row, level, circle) =>
      let geo := (Geo.ofCircle circle).atPage token.cursor
      match ((search geo).run world.search).1 with
      | .error _ => []
      | .ok found =>
        let v : Visit := ⟨row, level, geo, found⟩
        let later :=
          if found.dataset.isEmpty then
            visitsFrom (w.planAfter plan v) (.of none (row + 1)) budget
              (w.worldAfter search plan v world)
          else []
        v :: later

/-- The pages that a step of a walk reads. -/
def visits (name : String) (token : ResumeToken) (world : WalkWorld ω π ρ) : List Visit :=
  match w.planOf name world with
  | .error _ => []
  | .ok plan => w.visitsFrom search plan token w.settings.maxEmptySteps world

/-- How a step runs from a token on, after some requests and with some budget of empty pages: the
pages it reads, what it gives, and the world it leaves. -/
inductive StepRun : Plan → ResumeToken → Nat → Nat → WalkWorld ω π ρ → List Visit →
    Except Error WalkStep → WalkWorld ω π ρ → Prop where
  | tired {plan token apiCalls world} :
      StepRun plan token apiCalls 0 world [] (.ok (.tired plan token.row apiCalls)) world
  | finished {plan token apiCalls budget world} (hend : plan.nextCircle token.row = none) :
      StepRun plan token apiCalls (budget + 1) world [] (.ok (.finished plan apiCalls))
        (w.worldAtEnd plan world)
  | failed {plan token apiCalls budget world row level circle e}
      (hcircle : plan.nextCircle token.row = some (row, level, circle))
      (hfail : ((search ((Geo.ofCircle circle).atPage token.cursor)).run world.search).1 =
        .error e) :
      StepRun plan token apiCalls (budget + 1) world [] (.error e)
        { world with
          search := ((search ((Geo.ofCircle circle).atPage token.cursor)).run world.search).2 }
  | accepted {plan token apiCalls budget world v} (hfinds : search.Finds plan token world.search v)
      (hfound : v.found.dataset.isEmpty = false) :
      StepRun plan token apiCalls (budget + 1) world [v]
        (.ok (.accepted plan v (apiCalls + v.found.apiCalls))) (w.worldAfter search plan v world)
  | passed {plan token apiCalls budget world v later result last}
      (hfinds : search.Finds plan token world.search v) (hempty : v.found.dataset.isEmpty = true)
      (hlater : StepRun (w.planAfter plan v) (.of none (v.row + 1)) (apiCalls + v.found.apiCalls)
        budget (w.worldAfter search plan v world) later result last) :
      StepRun plan token apiCalls (budget + 1) world (v :: later) result last

variable {w search} {plan : Plan} {token : ResumeToken} {world : WalkWorld ω π ρ} {v : Visit}
  {apiCalls budget : Nat} {name : String}

/-! ## Running a step -/

theorem run_bind_eq {σ α β : Type} {m : StateM σ α} {f : α → StateM σ β} {s s' : σ} {a : α}
    (h : m.run s = (a, s')) : (m >>= f).run s = (f a).run s' := by
  rw [StateT.run_bind, h]
  rfl

theorem run_record (name : String) (change : Time → PlanState → PlanState)
    (world : WalkWorld ω π ρ) :
    (w.record name change).run world = ((), { world with
      progress := w.progress.update name (change (w.clock world.readings)) world.progress
      readings := world.readings + 1 }) := rfl

/-- Asking whether a plan is fresh changes nothing. -/
theorem exists_run_isActiveOrDone (w : Walker π ρ) (name : String) (now : Time)
    (world : WalkWorld ω π ρ) :
    ∃ busy, (w.isActiveOrDone name now).run world = (busy, world) := by
  have hstate : (w.state name).run world = (w.progress.get name world.progress, world) := rfl
  rw [isActiveOrDone, run_bind_eq hstate]
  split
  · exact ⟨_, rfl⟩
  · exact ⟨_, rfl⟩

theorem run_rectify (plan : Plan) (v : Visit) (world : WalkWorld ω π ρ) :
    (w.rectify plan v.level v.found.dataset.size).run world =
      (w.planAfter plan v, { world with plans := w.plansAfter plan v world.plans }) := by
  rw [rectify, planAfter, plansAfter]
  cases w.settings.rectify.rectifies v.found.dataset.size with
  | false => rfl
  | true =>
    cases hcount : plan.countBelow v.level == 0 with
    | true =>
      rw [beq_iff_eq] at hcount
      rw [Plan.skipBelow_eq_self hcount, hcount]
      rfl
    | false =>
      rw [bne, hcount]
      rfl

theorem run_stepFrom_finished (h : plan.nextCircle token.row = none) :
    (w.stepFrom search plan token.row token.cursor apiCalls (budget + 1)).run world =
      (.ok (.finished plan apiCalls), w.worldAtEnd plan world) := by
  rw [stepFrom, h]
  rfl

theorem run_stepFrom_failed {row : Nat} {level : String} {circle : Circle} {e : Error}
    (hcircle : plan.nextCircle token.row = some (row, level, circle))
    (hfail : ((search ((Geo.ofCircle circle).atPage token.cursor)).run world.search).1 =
      .error e) :
    (w.stepFrom search plan token.row token.cursor apiCalls (budget + 1)).run world =
      (.error e, { world with
        search := ((search ((Geo.ofCircle circle).atPage token.cursor)).run world.search).2 }) := by
  have hsearch : (searchCircle search ((Geo.ofCircle circle).atPage token.cursor)).run world =
      (.error e, { world with search :=
        ((search ((Geo.ofCircle circle).atPage token.cursor)).run world.search).2 }) := by
    rw [← hfail]
    rfl
  rw [stepFrom, hcircle]
  exact run_bind_eq hsearch

/-- A page is recorded, and marks circles; the step ends with it if it has features. -/
theorem run_stepFrom_found (h : search.Finds plan token world.search v) :
    (w.stepFrom search plan token.row token.cursor apiCalls (budget + 1)).run world =
      if v.found.dataset.isEmpty then
        (w.stepFrom search (w.planAfter plan v) (v.row + 1) none (apiCalls + v.found.apiCalls)
          budget).run (w.worldAfter search plan v world)
      else (.ok (.accepted plan v (apiCalls + v.found.apiCalls)),
        w.worldAfter search plan v world) := by
  have hsearch : (searchCircle search v.geo).run world =
      (.ok v.found, { world with search := ((search v.geo).run world.search).2 }) := by
    rw [← h.answer]
    rfl
  rw [stepFrom, h.circle]
  simp only [← h.geo]
  rw [run_bind_eq hsearch]
  simp only
  rw [run_bind_eq (run_record plan.name _ _), run_bind_eq (run_rectify plan v _)]
  cases v.found.dataset.isEmpty <;> rfl

/-- Every step runs by the rules. -/
theorem stepRun_stepFrom (plan : Plan) (token : ResumeToken) (apiCalls budget : Nat)
    (world : WalkWorld ω π ρ) :
    let run := (w.stepFrom search plan token.row token.cursor apiCalls budget).run world
    w.StepRun search plan token apiCalls budget world (w.visitsFrom search plan token budget world)
      run.1 run.2 := by
  induction budget generalizing plan token apiCalls world with
  | zero => exact .tired
  | succ budget ih =>
    intro run
    cases hnext : plan.nextCircle token.row with
    | none =>
      simp only [run, run_stepFrom_finished hnext, visitsFrom, hnext]
      exact .finished hnext
    | some next =>
      obtain ⟨row, level, circle⟩ := next
      cases hanswer :
          ((search ((Geo.ofCircle circle).atPage token.cursor)).run world.search).1 with
      | error e =>
        simp only [run, run_stepFrom_failed hnext hanswer, visitsFrom, hnext, hanswer]
        exact .failed hnext hanswer
      | ok found =>
        let v : Visit := ⟨row, level, (Geo.ofCircle circle).atPage token.cursor, found⟩
        have hfinds : search.Finds plan token world.search v := ⟨hnext, rfl, hanswer⟩
        simp only [run, run_stepFrom_found hfinds, visitsFrom, hnext, hanswer]
        cases hempty : found.dataset.isEmpty with
        | false => exact .accepted hfinds hempty
        | true => exact .passed hfinds hempty (ih _ (.of none (row + 1)) _ _)

/-! ## The plan of a walk -/

theorem planOf_eq_ok_iff : w.planOf name world = .ok plan ↔
    w.plans.read name world.plans = .ok plan.rows ∧ Plan.ofRows name plan.rows = .ok plan := by
  rw [planOf]
  cases w.plans.read name world.plans with
  | error e => simp [Except.bind]
  | ok rows =>
    simp only [Except.bind, Except.ok.injEq]
    constructor
    · intro h
      obtain ⟨-, rfl, -⟩ := Plan.ofRows_eq_ok_iff.mp h
      exact ⟨rfl, h⟩
    · rintro ⟨rfl, h⟩
      exact h

theorem name_of_planOf (h : w.planOf name world = .ok plan) : plan.name = name :=
  (Plan.ofRows_eq_ok_iff.mp (planOf_eq_ok_iff.mp h).2).1

/-- A step of a walk starts with the plan that its source has. -/
theorem run_step (h : w.planOf name world = .ok plan) :
    (w.step search name token).run world =
      (w.stepFrom search plan token.row token.cursor 0 w.settings.maxEmptySteps).run world := by
  obtain ⟨hread, hrows⟩ := planOf_eq_ok_iff.mp h
  have hreadPlan : (w.readPlan name).run world = (.ok plan.rows, world) := by
    rw [← hread]
    rfl
  rw [step, run_bind_eq hreadPlan]
  simp only [hrows]

theorem run_step_of_error {e : Error} (h : w.planOf name world = .error e) :
    (w.step search name token).run world = (.error e, world) := by
  have hreadPlan : (w.readPlan name).run world = (w.plans.read name world.plans, world) := rfl
  rw [step, run_bind_eq hreadPlan]
  rw [planOf] at h
  cases hread : w.plans.read name world.plans with
  | error e' =>
    obtain rfl : e' = e := by simpa [hread, Except.bind] using h
    rfl
  | ok rows =>
    simp only [hread, Except.bind] at h
    simp only [h]
    rfl

/-- Every step of a walk whose plan can be read runs by the rules. -/
theorem stepRun (h : w.planOf name world = .ok plan) (token : ResumeToken) :
    let run := (w.step search name token).run world
    w.StepRun search plan token 0 w.settings.maxEmptySteps world (w.visits search name token world)
      run.1 run.2 := by
  simp only [run_step h, visits, h]
  exact stepRun_stepFrom plan token 0 w.settings.maxEmptySteps world

/-- If written rows are kept, the source has the plan at hand also after a page. -/
theorem planOf_worldAfter (hkeeps : w.plans.Keeps name) (h : w.planOf name world = .ok plan) :
    w.planOf name (w.worldAfter search plan v world) = .ok (w.planAfter plan v) := by
  have hname := name_of_planOf h
  rw [planOf_eq_ok_iff] at h ⊢
  simp only [worldAfter, plansAfter, planAfter]
  cases w.settings.rectify.rectifies v.found.dataset.size with
  | false => exact h
  | true =>
    rw [Bool.true_and, if_pos rfl]
    by_cases hcount : plan.countBelow v.level = 0
    · rw [Plan.skipBelow_eq_self hcount, if_neg (by simpa using hcount)]
      exact h
    · obtain ⟨t, hwrite, hread⟩ := hkeeps (plan.skipBelow v.level).rows world.plans
      rw [if_pos (by simpa using hcount), hname, hwrite]
      exact ⟨hread, Plan.ofRows_skipBelow h.2 v.level⟩

@[simp] theorem name_planAfter (plan : Plan) (v : Visit) :
    (w.planAfter plan v).name = plan.name := by
  rw [planAfter]
  split <;> rfl

@[simp] theorem size_planAfter (plan : Plan) (v : Visit) :
    (w.planAfter plan v).size = plan.size := by
  rw [planAfter]
  split
  · exact Plan.size_skipBelow plan v.level
  · rfl

end Walker

end PlaceSearch
