import PlaceSearch.Proofs.Walk.Extent

/-!
# The percentage of a walk

A step tells how much of its plan lies behind the walk.  The percentage is that of a place in the
plan, which is less than 100 at every place as long as the plan has two rows.  It counts all rows
but one, which is taken for the closing one; a plan of a single circle has none left to count, and
is at 100 from its first page on.

Marking circles leaves the number of rows as it is, so the steps of a walk tell percentages of
places in plans of one size, and they do not fall.
-/

namespace PlaceSearch

namespace Plan

variable {p q : Plan} {i j : Nat}

/-- The plan has one row, which is a circle to search. -/
def IsSingleCircle (p : Plan) : Prop :=
  ∃ level c, p.entries = [.circle level c]

theorem length_entries (p : Plan) : p.entries.length = p.size :=
  List.length_map _

/-! ## The percentages of places -/

theorem progressAt_congr (h : p.size = q.size) (i : Nat) : p.progressAt i = q.progressAt i := by
  rw [progressAt, progressAt, length, length, h]

/-- A later place has no smaller percentage. -/
theorem progressAt_le_progressAt (p : Plan) (h : i ≤ j) : p.progressAt i ≤ p.progressAt j := by
  rw [progressAt, progressAt]
  split
  · exact Nat.le_refl 100
  · have hle : (i * 100 + p.length / 2) / p.length ≤ (j * 100 + p.length / 2) / p.length :=
      Nat.div_le_div_right (by omega)
    omega

/-- All places have the percentage 100 in a plan of at most one row, and no place of other plans has
it. -/
theorem progressAt_eq_hundred_iff : p.progressAt i = 100 ↔ p.size ≤ 1 := by
  rw [progressAt, length]
  split <;> omega

theorem progressAt_le_hundred (p : Plan) (i : Nat) : p.progressAt i ≤ 100 := by
  rw [progressAt]
  split <;> omega

/-- Marking circles keeps the number of rows. -/
theorem Marks.size_eq (h : p.Marks q) : q.size = p.size := by
  have hnone : ∀ i, q.entry? i = none ↔ p.entry? i = none := by
    intro i
    rcases h i with hi | ⟨_, _, hp, hq⟩
    · rw [hi]
    · simp [hp, hq]
  simp only [entry?_eq, List.getElem?_eq_none_iff, length_entries] at hnone
  have hp := (hnone p.size).mpr (Nat.le_refl _)
  have hq := (hnone q.size).mp (Nat.le_refl _)
  omega

/-- A plan of at most one row that has a circle has nothing else. -/
theorem isSingleCircle_of_entry? {level : String} {c : Circle} (hsize : p.size ≤ 1)
    (hcircle : p.entry? i = some (.circle level c)) : p.IsSingleCircle := by
  have hi := lt_size_of_entry? hcircle
  obtain rfl : i = 0 := by omega
  rw [entry?_eq] at hcircle
  obtain ⟨e, he⟩ := List.length_eq_one_iff.mp (p.length_entries.trans (by omega : p.size = 1))
  rw [he] at hcircle
  obtain rfl : e = .circle level c := by simpa using hcircle
  exact ⟨level, c, he⟩

theorem IsSingleCircle.size_eq (h : p.IsSingleCircle) : p.size = 1 := by
  obtain ⟨level, c, hentries⟩ := h
  rw [← length_entries, hentries, List.length_singleton]

end Plan

namespace WalkStep

/-- The requests that were sent in some steps. -/
def apiCallsOf (steps : List WalkStep) : Nat :=
  (steps.map (·.apiCalls)).sum

/-- The number of features that some steps answered. -/
def featuresOf (steps : List WalkStep) : Nat :=
  (steps.map (·.dataset.size)).sum

@[simp] theorem apiCallsOf_nil : apiCallsOf [] = 0 := rfl

@[simp] theorem featuresOf_nil : featuresOf [] = 0 := rfl

@[simp] theorem apiCallsOf_cons (s : WalkStep) (steps : List WalkStep) :
    apiCallsOf (s :: steps) = s.apiCalls + apiCallsOf steps := by
  simp [apiCallsOf]

@[simp] theorem featuresOf_cons (s : WalkStep) (steps : List WalkStep) :
    featuresOf (s :: steps) = s.dataset.size + featuresOf steps := by
  simp [featuresOf]

end WalkStep

namespace Walker

variable {ω π ρ : Type} {w : Walker π ρ} {search : CircleSearch ω} {plan : Plan}
  {token : ResumeToken} {apiCalls budget fuel : Nat} {world last : WalkWorld ω π ρ}
  {visits : List Visit} {s : WalkStep} {name : String}

/-! ## The percentage of a step -/

namespace StepEnd

theorem row_token (h : w.StepEnd plan token apiCalls budget visits s)
    (hexhausted : s.exhausted = false) : s.token.row = (Visit.after token visits).row := by
  cases h with
  | tired => rfl
  | finished => cases hexhausted
  | accepted _ hfound =>
    rw [Visit.after_concat, Visit.next_of_not_isEmpty hfound]
    rfl

/-- A step that does not reach the end of the plan tells the percentage of the place where the walk
goes on. -/
theorem progress_eq (h : w.StepEnd plan token apiCalls budget visits s)
    (hexhausted : s.exhausted = false) : s.progress = plan.progressAt s.token.row := by
  cases h with
  | tired => exact Plan.progressAt_congr (size_planAfterAll w plan _) _
  | finished => cases hexhausted
  | accepted => exact Plan.progressAt_congr (size_planAfterAll w plan _) _

theorem progress_of_exhausted (h : w.StepEnd plan token apiCalls budget visits s)
    (hexhausted : s.exhausted = true) : s.progress = 100 := by
  cases h with
  | tired => cases hexhausted
  | finished => rfl
  | accepted => cases hexhausted

/-- A step that read a page tells 100 exactly if it reached the end of the plan, or the plan has
nothing but a circle. -/
theorem progress_eq_hundred_iff (h : w.StepEnd plan token apiCalls budget visits s)
    (hcircle : ∀ v ∈ visits, plan.entry? v.row = some (.circle v.level v.geo.circle))
    (hbudget : 0 < budget) : s.progress = 100 ↔ s.exhausted = true ∨ plan.IsSingleCircle := by
  cases hexhausted : s.exhausted with
  | true => simp [h.progress_of_exhausted hexhausted]
  | false =>
    have hvisit : ∃ v, v ∈ visits := by
      refine List.exists_mem_of_ne_nil visits fun hnil => ?_
      have hall := h.exhausted_iff.mpr (by simp [hnil, hbudget])
      simp [hexhausted] at hall
    obtain ⟨v, hv⟩ := hvisit
    rw [h.progress_eq hexhausted, Plan.progressAt_eq_hundred_iff]
    constructor
    · intro hsize
      exact .inr (Plan.isSingleCircle_of_entry? hsize (hcircle v hv))
    · rintro (hfalse | hsingle)
      · cases hfalse
      · exact Nat.le_of_eq hsingle.size_eq

end StepEnd

/-- The percentage that a step tells is at least that of the place where it begins. -/
theorem StepRun.progressAt_le_progress
    (h : w.StepRun search plan token apiCalls budget world visits (.ok s) last) :
    plan.progressAt token.row ≤ s.progress := by
  have hend := h.stepEnd rfl
  cases hexhausted : s.exhausted with
  | true =>
    rw [hend.progress_of_exhausted hexhausted]
    exact plan.progressAt_le_hundred token.row
  | false =>
    rw [hend.progress_eq hexhausted, hend.row_token hexhausted]
    exact plan.progressAt_le_progressAt h.row_le_after

/-! ## The percentages of a walk -/

/-- The steps of a walk, as far as they succeed. -/
def walkSteps (w : Walker π ρ) (search : CircleSearch ω) (name : String) (token : ResumeToken) :
    Nat → WalkWorld ω π ρ → List WalkStep
  | 0, _ => []
  | fuel + 1, world =>
    match (w.step search name token).run world with
    | (.error _, _) => []
    | (.ok s, world) => s :: if s.exhausted then [] else walkSteps w search name s.token fuel world

/-- A walk that completes counts its steps, and what they sent and found; the last one reached the
end of the plan, and no other one did. -/
theorem walkSteps_of_completed {before apiCalls features steps apiCalls' features' : Nat}
    (h : ((w.walkFrom search name token before apiCalls features fuel).run world).1 =
      some (.ok (.completed steps apiCalls' features'))) :
    let made := w.walkSteps search name token fuel world
    steps = before + made.length ∧ apiCalls' = apiCalls + WalkStep.apiCallsOf made ∧
      features' = features + WalkStep.featuresOf made ∧
      ∃ init s, made = init ++ [s] ∧ s.exhausted = true ∧ ∀ s ∈ init, s.exhausted = false := by
  induction fuel generalizing token before apiCalls features world with
  | zero => cases h
  | succ fuel ih =>
    rw [run_walkFrom_succ] at h
    rw [walkSteps]
    generalize (w.step search name token).run world = stepped at h ⊢
    obtain ⟨_ | s, after⟩ := stepped
    · cases h
    · simp only [goOn] at h
      cases hexhausted : s.exhausted with
      | true =>
        rw [hexhausted, if_pos rfl] at h
        obtain ⟨rfl, rfl, rfl⟩ : before + 1 = steps ∧ apiCalls + s.apiCalls = apiCalls' ∧
            features + s.dataset.size = features' := by simpa using h
        simp only [hexhausted, if_true]
        exact ⟨rfl, rfl, rfl, [], s, rfl, hexhausted, by simp⟩
      | false =>
        rw [hexhausted, if_neg (by simp)] at h
        obtain ⟨hsteps, hcalls, hfeatures, init, s', hmade, hlast, hinit⟩ := ih h
        simp only [hexhausted, Bool.false_eq_true, if_false, List.length_cons,
          WalkStep.apiCallsOf_cons, WalkStep.featuresOf_cons]
        refine ⟨by omega, by omega, by omega, s :: init, s', by simp [hmade], hlast, ?_⟩
        exact List.forall_mem_cons.mpr ⟨hexhausted, hinit⟩

/-- From the place where a walk begins on, the percentages of its steps do not fall.  The induction
is on the steps; the plan of each step has the size of the plan before. -/
theorem pairwise_progress_walkSteps (hplans : w.plans.IsHonest name)
    (hplan : w.planOf name world = .ok plan) :
    (∀ s ∈ w.walkSteps search name token fuel world, plan.progressAt token.row ≤ s.progress) ∧
      (w.walkSteps search name token fuel world).Pairwise (·.progress ≤ ·.progress) := by
  induction fuel generalizing plan token world with
  | zero => exact ⟨by simp [walkSteps], .nil⟩
  | succ fuel ih =>
    have hrun : w.StepRun search plan token 0 w.settings.maxEmptySteps world _ _ _ :=
      stepRun hplan token
    rw [walkSteps]
    generalize (w.step search name token).run world = stepped at hrun ⊢
    obtain ⟨_ | s, after⟩ := stepped
    · exact ⟨by simp, .nil⟩
    · have hfirst : plan.progressAt token.row ≤ s.progress := hrun.progressAt_le_progress
      simp only
      cases hexhausted : s.exhausted with
      | true => exact ⟨by simpa using hfirst, List.pairwise_singleton _ _⟩
      | false =>
        obtain ⟨plan', hplan', hmarks, -⟩ :=
          hrun.exists_planOf hplans (planOf_eq_ok_iff.mp hplan).2 hplan (.refl plan)
        obtain ⟨hle, hpairwise⟩ : (∀ s' ∈ w.walkSteps search name s.token fuel after,
            plan'.progressAt s.token.row ≤ s'.progress) ∧ _ := ih hplan'
        have hlater : ∀ s' ∈ w.walkSteps search name s.token fuel after,
            s.progress ≤ s'.progress := by
          intro s' hs'
          rw [(hrun.stepEnd rfl).progress_eq hexhausted,
            ← Plan.progressAt_congr hmarks.size_eq]
          exact hle s' hs'
        simp only [Bool.false_eq_true, if_false]
        refine ⟨List.forall_mem_cons.mpr ⟨hfirst, fun s' hs' => ?_⟩, .cons hlater hpairwise⟩
        exact hfirst.trans (hlater s' hs')

/-- A step of a walk tells 100 exactly if it reached the end of the plan, or the plan has one row
which is a circle; so for all other plans the percentage tells whether the plan was walked, whether
they have a closing row or not.  Along the steps of a walk the percentage does not fall, if the
source gives back what was written to it or keeps what it had.  Those are the steps that a walk
counts when it completes; the last one reached the end of the plan, and no other one did. -/
theorem progress_of_steps (w : Walker π ρ) (search : CircleSearch ω) (name : String)
    (hmax : 0 < w.settings.maxEmptySteps) :
    (∀ token world s, ((w.step search name token).run world).1 = .ok s →
      ∃ plan, w.planOf name world = .ok plan ∧
        (s.progress = 100 ↔ s.exhausted = true ∨ plan.IsSingleCircle)) ∧
    (w.plans.IsHonest name → ∀ token world fuel,
      let steps := w.walkSteps search name token fuel world
      steps.Pairwise (·.progress ≤ ·.progress) ∧
        ∀ n apiCalls features, ((w.walkRemaining search name token fuel).run world).1 =
            some (.ok (.completed n apiCalls features)) →
          n = steps.length ∧ apiCalls = WalkStep.apiCallsOf steps ∧
            features = WalkStep.featuresOf steps ∧
            ∃ init s, steps = init ++ [s] ∧ s.exhausted = true ∧
              ∀ s ∈ init, s.exhausted = false) := by
  refine ⟨fun token world s hstep => ?_, fun hplans token world fuel => ⟨?_, ?_⟩⟩
  · cases hplan : w.planOf name world with
    | error e =>
      rw [run_step_of_error hplan] at hstep
      cases hstep
    | ok plan =>
      have hrun : w.StepRun search plan token 0 w.settings.maxEmptySteps world _ _ _ :=
        stepRun hplan token
      have hend := hrun.stepEnd hstep
      exact ⟨plan, rfl, hend.progress_eq_hundred_iff hrun.entry?_row hmax⟩
  · cases hplan : w.planOf name world with
    | error e =>
      have hnone : w.walkSteps search name token fuel world = [] := by
        cases fuel with
        | zero => rfl
        | succ fuel => rw [walkSteps, run_step_of_error hplan]
      rw [hnone]
      exact .nil
    | ok plan => exact (pairwise_progress_walkSteps hplans hplan).2
  · intro n apiCalls features hcompleted
    obtain ⟨hsteps, hcalls, hfeatures, hlast⟩ := walkSteps_of_completed hcompleted
    exact ⟨by omega, by omega, by omega, hlast⟩

/-- A plan of a single circle with two pages, and no closing row: the step that reads the first page
tells 100, though the second page is still to be read. -/
theorem progress_of_steps_of_single_circle :
    let place : Feature := { geometry := { lng := 10.0, lat := 10.0 }, properties := {} }
    let search : CircleSearch Unit := fun geo _ =>
      (.ok { dataset := { features := [place] }
             nextCursor := if geo.page.isSome then none else some "c1" }, ())
    let w : Walker (Table (List String)) (Table PlanState) :=
      { plans := .inMemory, progress := .inMemory, clock := fun n => .ofSeconds n }
    let world : WalkWorld Unit (Table (List String)) (Table PlanState) :=
      { search := (), plans := [("p", ["10.0_10.0_1000.0_circle=1"])], progress := [] }
    let steps := w.walkSteps search "p" {} 5 world
    0 < w.settings.maxEmptySteps ∧
      (∃ s plan, ((w.step search "p" {}).run world).1 = .ok s ∧ s.progress = 100 ∧
        s.exhausted = false ∧ s.token = ⟨some "c1", 0⟩ ∧ w.planOf "p" world = .ok plan ∧
        plan.IsSingleCircle) ∧
      w.plans.IsHonest "p" ∧ steps.map (·.progress) = [100, 100, 100] ∧
      steps.Pairwise (·.progress ≤ ·.progress) := by
  intro place search w world steps
  have hmax : 0 < w.settings.maxEmptySteps := by decide
  have hplans : w.plans.IsHonest "p" := (PlanSource.keeps_inMemory "p").isHonest
  obtain ⟨hprogress, hwalk⟩ := progress_of_steps w search "p" hmax
  have hanswer : ((w.step search "p" {}).run world).1.map
      (fun s => (s.progress, s.exhausted, s.token)) = .ok (100, false, ⟨some "c1", 0⟩) := by
    decide +kernel
  obtain ⟨s, hs, hfields⟩ : ∃ s, ((w.step search "p" {}).run world).1 = .ok s ∧
      (s.progress, s.exhausted, s.token) = (100, false, ⟨some "c1", 0⟩) :=
    exists_eq_ok_of_map hanswer
  simp only [Prod.mk.injEq] at hfields
  obtain ⟨hhundred, hexhausted, htoken⟩ := hfields
  obtain ⟨plan, hplan, hiff⟩ := hprogress {} world s hs
  have hsingle : plan.IsSingleCircle := by
    simpa [hexhausted] using hiff.mp hhundred
  exact ⟨hmax, ⟨s, plan, hs, hhundred, hexhausted, htoken, hplan, hsingle⟩, hplans,
    by decide +kernel, (hwalk hplans {} world 5).1⟩

end Walker

end PlaceSearch
