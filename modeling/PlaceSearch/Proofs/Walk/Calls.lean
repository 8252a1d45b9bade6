import PlaceSearch.Proofs.Walk.Tour

/-!
# Calls to a walker

A walker is called for a step, for the walk to the end of a plan, or for that walk unless the plan
is fresh.  Whatever it finds, and however the call ends, all that a call does to the state of its
plan is one change for each page that was read, in order, and one more if the end of the plan was
reached.

Calls follow each other; between two of them the plan and all that can be searched may change, but
the progress stays as it is.
-/

namespace PlaceSearch

/-! ## Changes -/

/-- A change to the state of a plan: a page was read, or the end of the plan was reached. -/
inductive PlanChange where
  | page (next : ResumeToken) (progress apiCalls : Nat) (now : Time)
  | finish (size : Nat) (now : Time)

namespace PlanChange

/-- The state after a change. -/
def apply : PlanChange → PlanState → PlanState
  | page next progress apiCalls now, s => s.afterPage next progress apiCalls now
  | finish size now, s => s.afterCompletion size now

/-- The requests that were sent for a page. -/
def apiCalls : PlanChange → Nat
  | page _ _ apiCalls _ => apiCalls
  | finish _ _ => 0

/-- Whether the end of the plan was reached. -/
def isFinish : PlanChange → Bool
  | page _ _ _ _ => false
  | finish _ _ => true

/-- The time of a change. -/
def time : PlanChange → Time
  | page _ _ _ now => now
  | finish _ now => now

@[simp] theorem planName_apply (c : PlanChange) (s : PlanState) :
    (c.apply s).planName = s.planName := by
  cases c <;> rfl

@[simp] theorem apiCalls_apply (c : PlanChange) (s : PlanState) :
    (c.apply s).apiCalls = s.apiCalls + c.apiCalls := by
  cases c <;> rfl

/-- A plan is completed by the change for its end, and stays so. -/
@[simp] theorem isComplete_apply (c : PlanChange) (s : PlanState) :
    (c.apply s).isComplete = (c.isFinish || s.isComplete) := by
  cases c with
  | page next progress apiCalls now => exact s.isComplete_afterPage next progress apiCalls now
  | finish => rfl

/-- The changes for some pages that were read, in order, followed by one for the end of the plan if
it was reached. -/
inductive Tells : List PlanChange → List Visit → Bool → Prop where
  | stop : Tells [] [] false
  | finish (size : Nat) (now : Time) : Tells [.finish size now] [] true
  | page (v : Visit) (progress : Nat) (now : Time) {changes : List PlanChange}
      {visits : List Visit} {finished : Bool} (h : Tells changes visits finished) :
      Tells (.page v.token progress v.found.apiCalls now :: changes) (v :: visits) finished

theorem Tells.append {changes changes' : List PlanChange} {visits visits' : List Visit}
    {finished : Bool} (h : Tells changes visits false) (h' : Tells changes' visits' finished) :
    Tells (changes ++ changes') (visits ++ visits') finished := by
  generalize hfalse : false = stopped at h
  induction h with
  | stop => exact h'
  | finish => cases hfalse
  | page v progress now _ ih => exact .page v progress now (ih hfalse)

/-- The requests that were sent for some changes. -/
def callsOf (changes : List PlanChange) : Nat :=
  (changes.map apiCalls).sum

@[simp] theorem callsOf_nil : callsOf [] = 0 := rfl

@[simp] theorem callsOf_cons (c : PlanChange) (changes : List PlanChange) :
    callsOf (c :: changes) = c.apiCalls + callsOf changes := by
  simp [callsOf]

@[simp] theorem callsOf_append (changes changes' : List PlanChange) :
    callsOf (changes ++ changes') = callsOf changes + callsOf changes' := by
  simp [callsOf]

/-- The requests that the changes count are those that were sent for the pages. -/
theorem Tells.callsOf_eq {changes : List PlanChange} {visits : List Visit} {finished : Bool}
    (h : Tells changes visits finished) : callsOf changes = Visit.apiCallsOf visits := by
  induction h with
  | stop => rfl
  | finish => rfl
  | page v progress now _ ih =>
    rw [callsOf_cons, ih, Visit.apiCallsOf_cons]
    rfl

/-- The state of a plan after some changes to a new one. -/
def stateAfter (name : String) (changes : List PlanChange) : PlanState :=
  changes.foldl (fun s c => c.apply s) { planName := name }

/-- What a store has after some changes to a plan without a state. -/
def stored? (name : String) (changes : List PlanChange) : Option PlanState :=
  if changes = [] then none else some (stateAfter name changes)

theorem stateAfter_concat (name : String) (changes : List PlanChange) (c : PlanChange) :
    stateAfter name (changes ++ [c]) = c.apply (stateAfter name changes) :=
  List.foldl_concat ..

@[simp] theorem planName_stateAfter (name : String) (changes : List PlanChange) :
    (stateAfter name changes).planName = name := by
  induction changes using List.reverseRecOn with
  | nil => rfl
  | append_singleton changes c ih => rw [stateAfter_concat, planName_apply, ih]

theorem apiCalls_stateAfter (name : String) (changes : List PlanChange) :
    (stateAfter name changes).apiCalls = callsOf changes := by
  induction changes using List.reverseRecOn with
  | nil => rfl
  | append_singleton changes c ih =>
    rw [stateAfter_concat, apiCalls_apply, ih, callsOf_append, callsOf_cons, callsOf_nil,
      Nat.add_zero]

theorem isComplete_stateAfter (name : String) (changes : List PlanChange) :
    (stateAfter name changes).isComplete = changes.any isFinish := by
  induction changes using List.reverseRecOn with
  | nil => rfl
  | append_singleton changes c ih =>
    rw [stateAfter_concat, isComplete_apply, ih, List.any_append, Bool.or_comm]
    simp

end PlanChange

/-- A store after a change to the state of a plan. -/
def ProgressStore.write {ρ : Type} (store : ProgressStore ρ) (name : String) (r : ρ)
    (c : PlanChange) : ρ :=
  store.update name c.apply r

/-! ## Calls -/

/-- What a walker is called for: one step, the walk to the end of the plan, or this walk unless the
plan is fresh.  A walk is given up after `fuel` steps. -/
inductive WalkKind where
  | step
  | remaining (fuel : Nat)
  | run (fuel : Nat)

/-- A call to a walker: what for, the search and the token it is made with, and the state of the
search and of the plans when it is made. -/
structure WalkCall (ω π : Type) where
  kind : WalkKind
  search : CircleSearch ω
  token : ResumeToken
  state : ω
  plans : π

/-- How often the clock is read for a call before it reads any page. -/
def WalkKind.asks : WalkKind → Nat
  | run _ => 1
  | _ => 0

/-- How a call ends: with an error, with the end of the plan, or before that. -/
inductive WalkEnd where
  | stopped
  | finished
  | failed (e : Error)
deriving DecidableEq, Repr

namespace WalkEnd

/-- How a step ends. -/
def ofStep : Except Error WalkStep → WalkEnd
  | .error e => failed e
  | .ok s => if s.exhausted then finished else stopped

/-- How a walk ends. -/
def ofWalk : Option (Except Error WalkOutcome) → WalkEnd
  | some (.error e) => failed e
  | some (.ok (.completed _ _ _)) => finished
  | _ => stopped

/-- Whether a call reached the end of the plan. -/
def isFinished : WalkEnd → Bool
  | finished => true
  | _ => false

end WalkEnd

namespace Walker

variable {ω π ρ : Type} (w : Walker π ρ)

/-- One call. -/
def call (name : String) (c : WalkCall ω π) : StateM (WalkWorld ω π ρ) WalkEnd := do
  modify fun world => { world with search := c.state, plans := c.plans }
  match c.kind with
  | .step => return .ofStep (← w.step c.search name c.token)
  | .remaining fuel => return .ofWalk (← w.walkRemaining c.search name c.token fuel)
  | .run fuel => return .ofWalk (← w.runToCompletion c.search name c.token fuel)

/-- The world after some calls, one after the other. -/
def afterCalls (name : String) (world : WalkWorld ω π ρ) (calls : List (WalkCall ω π)) :
    WalkWorld ω π ρ :=
  calls.foldl (fun world c => ((w.call name c).run world).2) world

/-- The pages that a walk reads in so many steps. -/
def walkVisits (search : CircleSearch ω) (name : String) (token : ResumeToken) :
    Nat → WalkWorld ω π ρ → List Visit
  | 0, _ => []
  | fuel + 1, world =>
    w.visits search name token world ++
      match (w.step search name token).run world with
      | (.error _, _) => []
      | (.ok s, world) => if s.exhausted then [] else walkVisits search name s.token fuel world

/-- The pages that a walk reads that is only made if the plan is not fresh. -/
def runVisits (search : CircleSearch ω) (name : String) (token : ResumeToken) (fuel : Nat)
    (world : WalkWorld ω π ρ) : List Visit :=
  let asked := { world with readings := world.readings + 1 }
  if ((w.isActiveOrDone name (w.clock world.readings)).run asked).1 then []
  else w.walkVisits search name token fuel asked

/-- The pages that a call reads. -/
def callVisits (name : String) (c : WalkCall ω π) (world : WalkWorld ω π ρ) : List Visit :=
  let world := { world with search := c.state, plans := c.plans }
  match c.kind with
  | .step => w.visits c.search name c.token world
  | .remaining fuel => w.walkVisits c.search name c.token fuel world
  | .run fuel => w.runVisits c.search name c.token fuel world

variable {w} {search : CircleSearch ω} {plan : Plan} {token : ResumeToken} {name : String}
  {apiCalls budget : Nat} {world last : WalkWorld ω π ρ} {visits : List Visit}
  {result : Except Error WalkStep}

/-! ## From steps to calls -/

/-- A walk that is only made if the plan is not fresh does what the walk does, or nothing. -/
theorem run_runToCompletion (w : Walker π ρ) (search : CircleSearch ω) (name : String)
    (token : ResumeToken) (fuel : Nat) (world : WalkWorld ω π ρ) :
    let asked := { world with readings := world.readings + 1 }
    (w.runToCompletion search name token fuel).run world =
      if ((w.isActiveOrDone name (w.clock world.readings)).run asked).1 then
        (some (.ok .skipped), asked)
      else (w.walkRemaining search name token fuel).run asked := by
  intro asked
  have hnow : (w.now : StateM (WalkWorld ω π ρ) Time).run world =
      (w.clock world.readings, asked) := rfl
  obtain ⟨busy, hbusy⟩ := exists_run_isActiveOrDone w name (w.clock world.readings) asked
  rw [runToCompletion, run_bind_eq hnow, run_bind_eq hbusy, hbusy]
  cases busy <;> rfl

section Induction

variable {P : WalkWorld ω π ρ → List Visit → Bool → WalkWorld ω π ρ → Prop}

/-- What holds of all steps, with the pages they read, holds of all walks if it goes along with
putting one after the other; the induction is on the steps. -/
theorem walkFrom_induction (hnone : ∀ world, P world [] false world)
    (happend : ∀ world world' world'' visits visits' finished, P world visits false world' →
      P world' visits' finished world'' → P world (visits ++ visits') finished world'')
    (hstep : ∀ token world, let run := (w.step search name token).run world
      P world (w.visits search name token world) (WalkEnd.ofStep run.1).isFinished run.2)
    (token : ResumeToken) (steps apiCalls features fuel : Nat) (world : WalkWorld ω π ρ) :
    let run := (w.walkFrom search name token steps apiCalls features fuel).run world
    P world (w.walkVisits search name token fuel world) (WalkEnd.ofWalk run.1).isFinished
      run.2 := by
  induction fuel generalizing token steps apiCalls features world with
  | zero => exact hnone world
  | succ fuel ih =>
    have h : P world (w.visits search name token world)
        (WalkEnd.ofStep ((w.step search name token).run world).1).isFinished
        ((w.step search name token).run world).2 := hstep token world
    simp only [run_walkFrom_succ, walkVisits]
    generalize (w.step search name token).run world = stepped at h ⊢
    obtain ⟨_ | s, after⟩ := stepped
    · rw [List.append_nil]
      exact h
    · simp only [goOn]
      cases hexhausted : s.exhausted with
      | true =>
        rw [WalkEnd.ofStep, if_pos hexhausted] at h
        simp only [if_true, List.append_nil]
        exact h
      | false =>
        rw [WalkEnd.ofStep, if_neg (by simp [hexhausted])] at h
        simp only [Bool.false_eq_true, if_false]
        exact happend _ _ _ _ _ _ h (ih s.token (steps + 1) (apiCalls + s.apiCalls)
          (features + s.dataset.size) after)

/-- What holds of all steps, with the pages they read, holds of all calls if it goes along with
putting one after the other. -/
theorem call_induction (c : WalkCall ω π)
    (hnone : ∀ world readings, P world [] false { world with readings })
    (happend : ∀ world world' world'' visits visits' finished, P world visits false world' →
      P world' visits' finished world'' → P world (visits ++ visits') finished world'')
    (hstep : ∀ token world, let run := (w.step c.search name token).run world
      P world (w.visits c.search name token world) (WalkEnd.ofStep run.1).isFinished run.2)
    (world : WalkWorld ω π ρ) :
    let run := (w.call name c).run world
    P { world with search := c.state, plans := c.plans } (w.callVisits name c world)
      run.1.isFinished run.2 := by
  obtain ⟨kind, search, token, state, plans⟩ := c
  let given : WalkWorld ω π ρ := { world with search := state, plans := plans }
  have hwalk := fun fuel => walkFrom_induction (fun world => hnone world world.readings) happend
    hstep token 0 0 0 fuel
  cases kind with
  | step => exact hstep token given
  | remaining fuel => exact hwalk fuel given
  | run fuel =>
    have hrun : P given (w.runVisits search name token fuel given)
        (WalkEnd.ofWalk ((w.runToCompletion search name token fuel).run given).1).isFinished
        ((w.runToCompletion search name token fuel).run given).2 := by
      rw [run_runToCompletion, runVisits]
      split
      · exact hnone given _
      · exact happend _ _ _ _ _ _ (hnone given _) (hwalk fuel _)
    exact hrun

end Induction

/-! ## What a call does to the state of its plan -/

/-- All that is done to the state of a plan from one world to another is a change for each of some
pages, in order, and one more if the end of the plan is reached; each is made at the next reading of
the clock. -/
structure MakesChanges (w : Walker π ρ) (name : String) (world : WalkWorld ω π ρ)
    (changes : List PlanChange) (visits : List Visit) (finished : Bool)
    (last : WalkWorld ω π ρ) : Prop where
  tells : PlanChange.Tells changes visits finished
  progress_eq : last.progress = changes.foldl (w.progress.write name) world.progress
  readings_eq : last.readings = world.readings + changes.length
  times_eq : changes.map (·.time) = (List.range' world.readings changes.length).map w.clock

theorem MakesChanges.nil (search : ω) (plans : π) :
    w.MakesChanges name world [] [] false { world with search := search, plans := plans } :=
  ⟨.stop, rfl, rfl, rfl⟩

theorem MakesChanges.append {changes changes' : List PlanChange} {visits' : List Visit}
    {finished : Bool} {world' : WalkWorld ω π ρ}
    (h : w.MakesChanges name world changes visits false world')
    (h' : w.MakesChanges name world' changes' visits' finished last) :
    w.MakesChanges name world (changes ++ changes') (visits ++ visits') finished last where
  tells := h.tells.append h'.tells
  progress_eq := by rw [h'.progress_eq, h.progress_eq, List.foldl_append]
  readings_eq := by rw [h'.readings_eq, h.readings_eq, List.length_append, Nat.add_assoc]
  times_eq := by
    rw [List.map_append, h.times_eq, h'.times_eq, h.readings_eq, ← List.map_append,
      List.range'_append_1, List.length_append]

theorem makesChanges_worldAfter (v : Visit) :
    w.MakesChanges plan.name world
      [.page v.token (plan.progressAt v.token.row) v.found.apiCalls (w.clock world.readings)] [v]
      false (w.worldAfter search plan v world) :=
  ⟨.page v _ _ .stop, rfl, rfl, rfl⟩

/-- What a step does to the state of its plan. -/
theorem StepRun.exists_changes
    (h : w.StepRun search plan token apiCalls budget world visits result last) :
    ∃ changes, w.MakesChanges plan.name world changes visits (WalkEnd.ofStep result).isFinished
      last := by
  induction h with
  | tired => exact ⟨[], .nil _ _⟩
  | finished => exact ⟨_, .finish _ _, rfl, rfl, rfl⟩
  | failed => exact ⟨[], .nil _ _⟩
  | accepted => exact ⟨_, makesChanges_worldAfter _⟩
  | passed _ _ _ ih =>
    obtain ⟨changes, hlater⟩ := ih
    rw [name_planAfter] at hlater
    exact ⟨_, (makesChanges_worldAfter _).append hlater⟩

theorem exists_changes_step (w : Walker π ρ) (search : CircleSearch ω) (name : String)
    (token : ResumeToken) (world : WalkWorld ω π ρ) :
    let run := (w.step search name token).run world
    ∃ changes, w.MakesChanges name world changes (w.visits search name token world)
      (WalkEnd.ofStep run.1).isFinished run.2 := by
  cases hplan : w.planOf name world with
  | error e =>
    rw [run_step_of_error hplan, visits, hplan]
    exact ⟨[], .nil _ _⟩
  | ok plan =>
    have hrun : w.StepRun search plan token 0 w.settings.maxEmptySteps world _ _ _ :=
      stepRun hplan token
    have h := hrun.exists_changes
    rwa [name_of_planOf hplan] at h

theorem exists_changes_walk (w : Walker π ρ) (search : CircleSearch ω) (name : String)
    (token : ResumeToken) (fuel : Nat) (world : WalkWorld ω π ρ) :
    let run := (w.walkRemaining search name token fuel).run world
    ∃ changes, w.MakesChanges name world changes (w.walkVisits search name token fuel world)
      (WalkEnd.ofWalk run.1).isFinished run.2 := by
  let P (world : WalkWorld ω π ρ) visits finished (last : WalkWorld ω π ρ) : Prop :=
    ∃ changes, w.MakesChanges name world changes visits finished last
  have happend : ∀ world world' world'' visits visits' finished, P world visits false world' →
      P world' visits' finished world'' → P world (visits ++ visits') finished world'' := by
    rintro world world' world'' visits visits' finished ⟨changes, h⟩ ⟨changes', h'⟩
    exact ⟨changes ++ changes', h.append h'⟩
  exact walkFrom_induction (P := P) (fun _ => ⟨[], .nil _ _⟩) happend
    (exists_changes_step w search name) token 0 0 0 fuel world

/-- All that a call does to the state of its plan is a change for each page that it reads, in order,
and one more if it reaches the end of the plan; it may read the clock once before. -/
theorem exists_makesChanges_call (w : Walker π ρ) (name : String) (c : WalkCall ω π)
    (world : WalkWorld ω π ρ) :
    let run := (w.call name c).run world
    ∃ changes, w.MakesChanges name { world with readings := world.readings + c.kind.asks } changes
      (w.callVisits name c world) run.1.isFinished run.2 := by
  obtain ⟨kind, search, token, state, plans⟩ := c
  let given : WalkWorld ω π ρ := { world with search := state, plans := plans }
  cases kind with
  | step =>
    obtain ⟨changes, h⟩ := exists_changes_step w search name token given
    exact ⟨changes, h.tells, h.progress_eq, h.readings_eq, h.times_eq⟩
  | remaining fuel =>
    obtain ⟨changes, h⟩ := exists_changes_walk w search name token fuel given
    exact ⟨changes, h.tells, h.progress_eq, h.readings_eq, h.times_eq⟩
  | run fuel =>
    let asked : WalkWorld ω π ρ := { given with readings := given.readings + 1 }
    have hrun : ∃ changes, w.MakesChanges name asked changes
        (w.runVisits search name token fuel given)
        (WalkEnd.ofWalk ((w.runToCompletion search name token fuel).run given).1).isFinished
        ((w.runToCompletion search name token fuel).run given).2 := by
      rw [run_runToCompletion, runVisits]
      split
      · exact ⟨[], .nil _ _⟩
      · exact exists_changes_walk w search name token fuel asked
    obtain ⟨changes, h⟩ := hrun
    exact ⟨changes, h.tells, h.progress_eq, h.readings_eq, h.times_eq⟩

theorem exists_changes_call (w : Walker π ρ) (name : String) (c : WalkCall ω π)
    (world : WalkWorld ω π ρ) :
    let run := (w.call name c).run world
    ∃ changes, PlanChange.Tells changes (w.callVisits name c world) run.1.isFinished ∧
      run.2.progress = changes.foldl (w.progress.write name) world.progress := by
  obtain ⟨changes, h⟩ := exists_makesChanges_call w name c world
  exact ⟨changes, h.tells, h.progress_eq⟩

end Walker

/-! ## What a store has after some changes -/

namespace ProgressStore

variable {ρ : Type} {store : ProgressStore ρ} {name : String} {r : ρ} {before : List PlanChange}

theorem load_of_stored? (hget : store.get name r = .ok (PlanChange.stored? name before)) :
    store.load name r = PlanChange.stateAfter name before := by
  rw [load, hget, PlanChange.stored?]
  by_cases hnil : before = []
  · rw [if_pos hnil, hnil]
    rfl
  · rw [if_neg hnil]

/-- A store that keeps what is written has a new state with all changes, if there were any. -/
theorem get_foldl_write (hstore : store.Keeps name)
    (hget : store.get name r = .ok (PlanChange.stored? name before)) (changes : List PlanChange) :
    store.get name (changes.foldl (store.write name) r) =
      .ok (PlanChange.stored? name (before ++ changes)) := by
  induction changes generalizing r before with
  | nil => rwa [List.append_nil]
  | cons c changes ih =>
    have hload := load_of_stored? hget
    have hwrite : store.get name (store.write name r c) =
        .ok (PlanChange.stored? name (before ++ [c])) := by
      rw [write, get_update hstore _ (by simp [hload]), hload, PlanChange.stored?,
        if_neg (by simp), PlanChange.stateAfter_concat]
    rw [List.foldl_cons, ih hwrite, List.append_assoc, List.singleton_append]

end ProgressStore

end PlaceSearch
