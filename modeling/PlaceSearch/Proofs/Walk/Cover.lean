import PlaceSearch.Proofs.Plan.Generate
import PlaceSearch.Proofs.Walk.Step

/-!
# The rows behind a step

A step leaves no circle behind: every circle between the row it starts at and the row it goes on
with was searched, or was marked as passed over in the plan at hand.  A step that reaches the end of
the plan goes on behind its last row, and only such a step completes the plan.

The marks of the plan at hand may be missing in the source, if writing them fails; but what the
source has is never marked where the plan at hand is not.

## Main definitions

* `Walker.planAfterAll` — the plan at hand after some pages.
* `Walker.marks w search name token world` — the rows that a step marks.
-/

namespace PlaceSearch

/-- Whether a row is a circle to search. -/
def Plan.isCircle (p : Plan) (index : Nat) : Bool :=
  p.entry? index |>.any (·.isNormal)

namespace Walker

variable {ω π ρ : Type} {w : Walker π ρ} {search : CircleSearch ω} {plan stored : Plan}
  {token : ResumeToken} {apiCalls budget : Nat} {world last : WalkWorld ω π ρ} {v : Visit}
  {visits : List Visit} {result : Except Error WalkStep} {name : String}

/-! ## The plan that is walked -/

/-- Having a plan changes the source of plans only, and that only if there was no plan: then the plan
of the circle is made and written to it. -/
theorem exists_run_ensurePlan (w : Walker π ρ) (name : String) (root : Circle)
    (world : WalkWorld ω π ρ) :
    let rows := generatePlan root w.settings.minRadius
    let written := (w.plans.write name rows).run world.plans
    ∃ made plans, (w.ensurePlan name root).run world = (made, { world with plans := plans }) ∧
      (∀ rows, w.plans.read name world.plans = .ok rows →
        made = Plan.ofRows name rows ∧ plans = world.plans) ∧
      (∀ n, w.plans.read name world.plans = .error (.planNotFound n) →
        made = (written.1.bind fun _ => Plan.ofRows name rows) ∧ plans = written.2) ∧
      ((∀ n, w.plans.read name world.plans ≠ .error (.planNotFound n)) → plans = world.plans) := by
  intro rows written
  have hreadPlan : (w.readPlan name).run world = (w.plans.read name world.plans, world) := rfl
  rw [ensurePlan, run_bind_eq hreadPlan]
  cases w.plans.read name world.plans with
  | ok rows => exact ⟨_, world.plans, rfl, by simp, by simp, by simp⟩
  | error e =>
    cases e with
    | planNotFound n =>
      have hwritePlan : (w.writePlan name rows).run world =
          (written.1, { world with plans := written.2 }) := rfl
      simp only
      rw [run_bind_eq hwritePlan]
      cases written.1 with
      | ok => exact ⟨_, _, rfl, by simp, fun _ _ => ⟨rfl, rfl⟩, by simp⟩
      | error => exact ⟨_, _, rfl, by simp, fun _ _ => ⟨rfl, rfl⟩, by simp⟩
    | _ => exact ⟨_, world.plans, rfl, by simp, by simp, by simp⟩

/-- The plan of a circle, if there is one. -/
theorem run_ensurePlan (hplan : w.planOf name world = .ok plan) (root : Circle) :
    (w.ensurePlan name root).run world = (.ok plan, world) := by
  obtain ⟨hread, hrows⟩ := planOf_eq_ok_iff.mp hplan
  obtain ⟨made, plans, hrun, hstored, -⟩ := exists_run_ensurePlan w name root world
  obtain ⟨rfl, rfl⟩ := hstored plan.rows hread
  rw [hrun, hrows]

/-- If no plan can be read, there is none afterwards either, or it is the one of the circle and was
made because there was none. -/
theorem run_ensurePlan_of_error (hplans : w.plans.IsHonest name) {err : Error}
    (hplan : w.planOf name world = .error err) (root : Circle) :
    ∃ made world', (w.ensurePlan name root).run world = (made, world') ∧
      world'.progress = world.progress ∧
      ((∃ err, w.planOf name world' = .error err) ∨
        ∃ plan n, made = .ok plan ∧ w.planOf name world' = .ok plan ∧
          w.plans.read name world.plans = .error (.planNotFound n) ∧
          Plan.ofRows name (generatePlan root w.settings.minRadius) = .ok plan) := by
  obtain ⟨made, plans, hrun, -, hnone, hthere⟩ := exists_run_ensurePlan w name root world
  refine ⟨made, { world with plans := plans }, hrun, rfl, ?_⟩
  by_cases hread : ∃ n, w.plans.read name world.plans = .error (.planNotFound n)
  · obtain ⟨n, hread⟩ := hread
    let rows := generatePlan root w.settings.minRadius
    obtain ⟨written, plans', hwrite, hback⟩ := hplans rows world.plans
    obtain ⟨hmade, hplans'⟩ := hnone n hread
    rw [hwrite] at hmade hplans'
    obtain rfl : plans = plans' := hplans'
    rcases hback with ⟨rfl, hback⟩ | hback
    · have hplanOf : w.planOf name { world with plans := plans } = Plan.ofRows name rows := by
        rw [planOf, hback]
        rfl
      have hmade' : made = Plan.ofRows name rows := hmade
      rw [hplanOf, hmade']
      cases hrows : Plan.ofRows name rows with
      | error err => exact .inl ⟨err, rfl⟩
      | ok plan => exact .inr ⟨plan, n, rfl, rfl, hread, rfl⟩
    · refine .inl ?_
      cases hplans' : w.plans.read name plans with
      | ok rows' =>
        rw [(hback rows').mp hplans'] at hread
        cases hread
      | error err' => exact ⟨err', by rw [planOf, hplans']; rfl⟩
  · refine .inl ⟨err, ?_⟩
    rw [hthere (not_exists.mp hread)]
    exact hplan

/-- The plan at hand after some pages. -/
def planAfterAll (w : Walker π ρ) (plan : Plan) (visits : List Visit) : Plan :=
  visits.foldl w.planAfter plan

theorem marks_planAfter (plan : Plan) (v : Visit) : plan.Marks (w.planAfter plan v) := by
  rw [planAfter]
  split
  · exact .skipBelow plan v.level
  · exact .refl plan

theorem marks_planAfterAll (plan : Plan) (visits : List Visit) :
    plan.Marks (w.planAfterAll plan visits) := by
  induction visits generalizing plan with
  | nil => exact .refl plan
  | cons v visits ih => exact (marks_planAfter plan v).trans (ih _)

/-- The rows that a step marks as passed over. -/
def marks (w : Walker π ρ) (search : CircleSearch ω) (name : String) (token : ResumeToken)
    (world : WalkWorld ω π ρ) : List Nat :=
  match w.planOf name world with
  | .error _ => []
  | .ok plan =>
    let final := w.planAfterAll plan (w.visits search name token world)
    (List.range plan.size).filter fun i => plan.isCircle i && !final.isCircle i

/-- The plan at hand after some pages: all circles below the rectified ones are marked. -/
theorem planAfterAll_eq_markBelow (plan : Plan) (visits : List Visit) :
    w.planAfterAll plan visits = plan.markBelow
      ((visits.filter (w.settings.rectify.rectifies ·.found.dataset.size)).map (·.level)) := by
  have hfrom : ∀ levels, w.planAfterAll (plan.markBelow levels) visits = plan.markBelow (levels ++
      (visits.filter (w.settings.rectify.rectifies ·.found.dataset.size)).map (·.level)) := by
    induction visits with
    | nil => simp [planAfterAll]
    | cons v visits ih =>
      intro levels
      rw [planAfterAll, List.foldl_cons, planAfter, List.filter_cons]
      split
      · rw [List.map_cons, List.append_cons, Plan.skipBelow_markBelow]
        exact ih (levels ++ [v.level])
      · exact ih levels
  have h := hfrom []
  rwa [Plan.markBelow_nil, List.nil_append] at h

/-- A step marks the circles that lie below a row of which it read a page with so few features that
its circle is rectified. -/
theorem mem_marks_iff (hplan : w.planOf name world = .ok plan) {i : Nat} :
    i ∈ w.marks search name token world ↔ ∃ level c, plan.entry? i = some (.circle level c) ∧
      ∃ v ∈ w.visits search name token world,
        w.settings.rectify.rectifies v.found.dataset.size = true ∧
          PlanEntry.levelBelow level v.level = true := by
  have hlt : ∀ {e}, plan.entry? i = some e → i < plan.size := Plan.lt_size_of_entry?
  simp only [marks, hplan, List.mem_filter, List.mem_range, planAfterAll_eq_markBelow,
    Plan.isCircle, Plan.entry?_markBelow rfl]
  cases hentry : plan.entry? i with
  | none => simp
  | some e =>
    cases e with
    | skip | finish => simp [PlanEntry.isNormal, PlanEntry.circle?]
    | circle level c =>
      simp [hlt hentry, PlanEntry.markBelow, PlanEntry.isNormal, PlanEntry.circle?, apply_ite]

theorem mem_marks {i : Nat} {level : String} {c : Circle} (hplan : w.planOf name world = .ok plan)
    (hcircle : plan.entry? i = some (.circle level c))
    (hskip : Plan.entry? (w.planAfterAll plan (w.visits search name token world)) i =
      some (.skip level)) :
    i ∈ w.marks search name token world := by
  have hlt : i < plan.size := Plan.lt_size_of_entry? hcircle
  rw [marks, hplan]
  simp [hlt, hcircle, hskip, Plan.isCircle, PlanEntry.isNormal, PlanEntry.circle?]

/-! ## The circles that a step goes through -/

/-- All circles before the row that is searched next are marked as passed over. -/
theorem row_le_of_finds (h : search.Finds plan token world.search v) {i : Nat} {level : String}
    {c : Circle} (hcircle : plan.entry? i = some (.circle level c)) (hi : token.row ≤ i) :
    v.row ≤ i := by
  obtain ⟨-, -, hskips⟩ := Plan.nextCircle_eq_some h.circle
  by_contra hlt
  obtain ⟨l, hskip⟩ := hskips i hi (Nat.not_le.mp hlt)
  rw [hcircle] at hskip
  cases hskip

/-- If the source has the plan at hand but for some marks, it does so after a page. -/
theorem exists_planOf_worldAfter (hplans : w.plans.IsHonest name)
    (hrows : Plan.ofRows name plan.rows = .ok plan) (hstored : w.planOf name world = .ok stored)
    (hmarks : stored.Marks plan) :
    ∃ stored', w.planOf name (w.worldAfter search plan v world) = .ok stored' ∧
      stored.Marks stored' ∧ stored'.Marks (w.planAfter plan v) := by
  have hname : plan.name = name := (Plan.ofRows_eq_ok_iff.mp hrows).1
  obtain ⟨hread, hrows'⟩ := planOf_eq_ok_iff.mp hstored
  change ∃ stored', (w.plans.read name (w.plansAfter plan v world.plans)).bind
    (Plan.ofRows name) = .ok stored' ∧ _
  rw [plansAfter]
  split
  · rename_i hwrites
    obtain ⟨written, plans, hwrite, hback⟩ := hplans (plan.skipBelow v.level).rows world.plans
    rw [hname, hwrite]
    rcases hback with ⟨-, hback⟩ | hback
    · have hrectifies := (Bool.and_eq_true_iff.mp hwrites).1
      refine ⟨plan.skipBelow v.level, ?_, hmarks.trans (.skipBelow plan v.level), ?_⟩
      · rw [hback]
        exact Plan.ofRows_skipBelow hrows v.level
      · rw [planAfter, if_pos hrectifies]
        exact .refl _
    · refine ⟨stored, ?_, .refl stored, hmarks.trans (marks_planAfter plan v)⟩
      rw [(hback stored.rows).mpr hread]
      exact hrows'
  · exact ⟨stored, hstored, .refl stored, hmarks.trans (marks_planAfter plan v)⟩

theorem ofRows_planAfter (hrows : Plan.ofRows name plan.rows = .ok plan) (v : Visit) :
    Plan.ofRows name (w.planAfter plan v).rows = .ok (w.planAfter plan v) := by
  rw [planAfter]
  split
  · exact Plan.ofRows_skipBelow hrows v.level
  · exact hrows

namespace StepRun

/-- Every circle between the row that a step starts at and the row that it goes on with was searched
in the step, or was marked.  The induction is on the pages without features. -/
theorem covers (h : w.StepRun search plan token apiCalls budget world visits result last)
    (hcloses : plan.ClosesLast) {step : WalkStep} (hstep : result = .ok step) {i : Nat}
    {level : String} {c : Circle} (hcircle : plan.entry? i = some (.circle level c))
    (hle : token.row ≤ i) (hlt : i < step.token.row) :
    (∃ v ∈ visits, v.row = i) ∨
      Plan.entry? (w.planAfterAll plan visits) i = some (.skip level) := by
  induction h with
  | @tired plan token =>
    obtain rfl := Except.ok.inj hstep
    exact absurd hlt (Nat.not_lt.mpr hle)
  | finished hend => exact absurd (hcloses.lt_of_nextCircle hend hcircle) (Nat.not_lt.mpr hle)
  | failed => cases hstep
  | @accepted plan token _ _ _ v hfinds hfound =>
    obtain rfl := Except.ok.inj hstep
    have hrow : v.row ≤ i := row_le_of_finds hfinds hcircle hle
    have hnext : v.token.row ≤ v.row + 1 := by
      rw [Visit.token]
      split
      · exact Nat.le_succ v.row
      · exact Nat.le_refl _
    have hlt' : i < v.token.row := hlt
    exact .inl ⟨v, List.mem_singleton_self v, by omega⟩
  | @passed plan token _ _ _ v later result last hfinds hempty hlater ih =>
    have hmarks := marks_planAfter (w := w) plan v
    rcases Nat.lt_or_eq_of_le (row_le_of_finds hfinds hcircle hle) with hrow | rfl
    · rcases hmarks.entry?_circle_or_skip hcircle with hcircle | hskip
      · rcases ih (hcloses.of_marks hmarks) hstep hcircle hrow with ⟨v', hv', hi⟩ | hskip
        · exact .inl ⟨v', List.mem_cons_of_mem v hv', hi⟩
        · exact .inr hskip
      · exact .inr ((marks_planAfterAll _ later).entry?_of_skip hskip)
    · exact .inl ⟨v, List.mem_cons_self, rfl⟩

/-- If the source has the plan at hand but for some marks, it does so after a step. -/
theorem exists_planOf (h : w.StepRun search plan token apiCalls budget world visits result last)
    (hplans : w.plans.IsHonest name) (hrows : Plan.ofRows name plan.rows = .ok plan)
    (hstored : w.planOf name world = .ok stored) (hmarks : stored.Marks plan) :
    ∃ stored', w.planOf name last = .ok stored' ∧ stored.Marks stored' ∧
      stored'.Marks (w.planAfterAll plan visits) := by
  induction h generalizing stored with
  | tired => exact ⟨stored, hstored, .refl stored, hmarks⟩
  | finished => exact ⟨stored, hstored, .refl stored, hmarks⟩
  | failed => exact ⟨stored, hstored, .refl stored, hmarks⟩
  | accepted => exact exists_planOf_worldAfter hplans hrows hstored hmarks
  | @passed plan _ _ _ _ v _ _ _ _ _ _ ih =>
    obtain ⟨stored', hstored', hkept, hmarks'⟩ :=
      exists_planOf_worldAfter (v := v) hplans hrows hstored hmarks
    obtain ⟨final, hfinal, hkept', hmarks''⟩ := ih (ofRows_planAfter hrows v) hstored' hmarks'
    exact ⟨final, hfinal, hkept.trans hkept', hmarks''⟩

/-- A step that reached the end of the plan goes on behind its last row. -/
theorem size_le_row (h : w.StepRun search plan token apiCalls budget world visits result last)
    {step : WalkStep} (hstep : result = .ok step) (hexhausted : step.exhausted = true) :
    plan.size ≤ step.token.row := by
  induction h with
  | tired =>
    obtain rfl := Except.ok.inj hstep
    cases hexhausted
  | @finished plan =>
    obtain rfl := Except.ok.inj hstep
    exact Nat.le_refl plan.size
  | failed => cases hstep
  | accepted =>
    obtain rfl := Except.ok.inj hstep
    cases hexhausted
  | passed _ _ _ ih =>
    rw [← size_planAfter]
    exact ih hstep

/-- A plan is completed by a step only if the step reached the end of the plan. -/
theorem isComplete (h : w.StepRun search plan token apiCalls budget world visits result last)
    (hstore : w.progress.IsHonest plan.name)
    (hcomplete : w.progress.IsComplete plan.name last.progress) :
    w.progress.IsComplete plan.name world.progress ∨
      ∃ step, result = .ok step ∧ step.exhausted = true := by
  induction h with
  | tired => exact .inl hcomplete
  | finished => exact .inr ⟨_, rfl, rfl⟩
  | failed => exact .inl hcomplete
  | accepted => exact .inl (ProgressStore.isComplete_of_update_afterPage hstore hcomplete)
  | passed _ _ _ ih =>
    rw [name_planAfter] at ih
    rcases ih hstore hcomplete with hcomplete | hstep
    · exact .inl (ProgressStore.isComplete_of_update_afterPage hstore hcomplete)
    · exact .inr hstep

end StepRun

/-! ## Plans that stay stored -/

/-- Having a plan stores one if there was none. -/
theorem exists_rows_ensurePlan (hplans : w.plans.Keeps name) {n : String}
    (hnone : w.plans.read name world.plans = .error (.planNotFound n)) (root : Circle) :
    ∃ rows, w.plans.read name ((w.ensurePlan name root).run world).2.plans = .ok rows := by
  obtain ⟨made, plans, hrun, -, hwrite, -⟩ := exists_run_ensurePlan w name root world
  obtain ⟨plans', hrun', hread⟩ :=
    hplans (generatePlan root w.settings.minRadius) world.plans
  rw [hrun, (hwrite n hnone).2, hrun']
  exact ⟨_, hread⟩

/-- A plan that is stored is so after a step. -/
theorem exists_rows_step (hplans : w.plans.IsHonest name) {rows : List String}
    (hrows : w.plans.read name world.plans = .ok rows) (search : CircleSearch ω)
    (token : ResumeToken) :
    ∃ rows', w.plans.read name ((w.step search name token).run world).2.plans = .ok rows' := by
  cases hplan : w.planOf name world with
  | error e =>
    rw [run_step_of_error hplan]
    exact ⟨rows, hrows⟩
  | ok plan =>
    have hrun : w.StepRun search plan token 0 w.settings.maxEmptySteps world _ _ _ :=
      stepRun hplan token
    obtain ⟨final, hfinal, -⟩ :=
      hrun.exists_planOf hplans (planOf_eq_ok_iff.mp hplan).2 hplan (.refl plan)
    exact ⟨final.rows, (planOf_eq_ok_iff.mp hfinal).1⟩

end Walker

end PlaceSearch
