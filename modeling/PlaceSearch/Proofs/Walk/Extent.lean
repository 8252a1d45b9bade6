import PlaceSearch.Proofs.Walk.Cover
import PlaceSearch.Proofs.Walk.Tour

/-!
# How far a step goes

A step searches one circle after the other, each the next one of the plan at hand after what the
earlier ones marked, and ends with the first that has any place, at the end of the plan, or after
too many empty ones.  Which of the three it was can be told from the pages that it read, and so can
everything that it answers.

The step leaves no circle behind on its way: what was to be searched between its start and its end
was searched, or lies below a circle that was rectified on the way.  This holds of plans of any
form; a plan may have closing rows anywhere, or none.
-/

namespace PlaceSearch

namespace Visit

variable {v : Visit}

/-- Where a walk stands after some pages that follow a token. -/
def after (token : ResumeToken) (visits : List Visit) : ResumeToken :=
  visits.foldl (fun _ v => v.next) token

theorem after_cons (token : ResumeToken) (v : Visit) (visits : List Visit) :
    after token (v :: visits) = after v.next visits := rfl

theorem after_concat (token : ResumeToken) (visits : List Visit) (v : Visit) :
    after token (visits ++ [v]) = v.next := by
  simp [after]

theorem next_of_isEmpty (h : v.found.dataset.isEmpty = true) : v.next = .of none (v.row + 1) :=
  if_pos h

theorem next_of_not_isEmpty (h : v.found.dataset.isEmpty = false) : v.next = v.token :=
  if_neg (by simp [h])

/-- After a page a walk goes on with the same row or the next one. -/
theorem row_next_bounds (v : Visit) : v.row ≤ v.next.row ∧ v.next.row ≤ v.row + 1 := by
  rw [next, token]
  split
  · exact ⟨Nat.le_succ _, Nat.le_refl _⟩
  · split
    · exact ⟨Nat.le_refl _, Nat.le_succ _⟩
    · exact ⟨Nat.le_succ _, Nat.le_refl _⟩

end Visit

namespace Walker

variable {ω π ρ : Type} {w : Walker π ρ} {search : CircleSearch ω} {plan : Plan}
  {token : ResumeToken} {apiCalls budget i : Nat} {world last : WalkWorld ω π ρ} {v : Visit}
  {visits : List Visit} {result : Except Error WalkStep} {s : WalkStep} {name level : String}
  {c : Circle}

theorem size_planAfterAll (w : Walker π ρ) (plan : Plan) (visits : List Visit) :
    (w.planAfterAll plan visits).size = plan.size := by
  induction visits generalizing plan with
  | nil => rfl
  | cons v visits ih => exact (ih (w.planAfter plan v)).trans (size_planAfter plan v)

/-! ## The end of a step -/

/-- The ways a step with some budget of empty pages can end, after some requests and from the pages
that it reads: all of them are empty and the budget is spent; all are empty and the plan ends; or
the last one has features and the others do not. -/
inductive StepEnd (w : Walker π ρ) (plan : Plan) (token : ResumeToken) (apiCalls budget : Nat) :
    List Visit → WalkStep → Prop where
  | tired {visits : List Visit} (hempty : ∀ v ∈ visits, v.found.dataset.isEmpty = true)
      (hlength : visits.length = budget) :
      StepEnd w plan token apiCalls budget visits (.tired (w.planAfterAll plan visits)
        (Visit.after token visits).row (apiCalls + Visit.apiCallsOf visits))
  | finished {visits : List Visit} (hempty : ∀ v ∈ visits, v.found.dataset.isEmpty = true)
      (hlength : visits.length < budget)
      (hend : (w.planAfterAll plan visits).nextCircle (Visit.after token visits).row = none) :
      StepEnd w plan token apiCalls budget visits
        (.finished (w.planAfterAll plan visits) (apiCalls + Visit.apiCallsOf visits))
  | accepted {visits : List Visit} {v : Visit}
      (hempty : ∀ v ∈ visits, v.found.dataset.isEmpty = true)
      (hfound : v.found.dataset.isEmpty = false) (hlength : visits.length < budget) :
      StepEnd w plan token apiCalls budget (visits ++ [v])
        (.accepted (w.planAfterAll plan visits) v (apiCalls + Visit.apiCallsOf (visits ++ [v])))

namespace StepEnd

/-- A page without features comes before the end of a step. -/
theorem cons (h : w.StepEnd (w.planAfter plan v) (.of none (v.row + 1))
      (apiCalls + v.found.apiCalls) budget visits s) (hv : v.found.dataset.isEmpty = true) :
    w.StepEnd plan token apiCalls (budget + 1) (v :: visits) s := by
  have hcalls : ∀ visits, apiCalls + v.found.apiCalls + Visit.apiCallsOf visits =
      apiCalls + Visit.apiCallsOf (v :: visits) := by
    intro visits
    rw [Visit.apiCallsOf_cons, Nat.add_assoc]
  cases h with
  | tired hempty hlength =>
    rw [hcalls, ← Visit.next_of_isEmpty hv]
    exact .tired (List.forall_mem_cons.mpr ⟨hv, hempty⟩) (by simp [hlength])
  | finished hempty hlength hend =>
    rw [← Visit.next_of_isEmpty hv] at hend
    rw [hcalls]
    exact .finished (List.forall_mem_cons.mpr ⟨hv, hempty⟩) (by simpa using hlength) hend
  | @accepted visits u hempty hfound hlength =>
    rw [hcalls]
    have hend : w.StepEnd plan token apiCalls (budget + 1) ((v :: visits) ++ [u]) _ :=
      .accepted (List.forall_mem_cons.mpr ⟨hv, hempty⟩) hfound (by simpa using hlength)
    exact hend

theorem length_le (h : w.StepEnd plan token apiCalls budget visits s) :
    visits.length ≤ budget := by
  cases h with
  | tired _ hlength => exact Nat.le_of_eq hlength
  | finished _ hlength => exact Nat.le_of_lt hlength
  | accepted _ _ hlength =>
    rw [List.length_append]
    exact hlength

theorem isEmpty_of_mem_dropLast (h : w.StepEnd plan token apiCalls budget visits s) :
    ∀ v ∈ visits.dropLast, v.found.dataset.isEmpty = true := by
  cases h with
  | tired hempty => exact fun v hv => hempty v (List.mem_of_mem_dropLast hv)
  | finished hempty => exact fun v hv => hempty v (List.mem_of_mem_dropLast hv)
  | accepted hempty => simpa using hempty

/-- A step answers the features of its last page, or nothing if all pages are empty. -/
theorem answer (h : w.StepEnd plan token apiCalls budget visits s) :
    (∃ v, visits.getLast? = some v ∧ v.found.dataset.isEmpty = false ∧
        s.dataset = v.found.dataset ∧ s.next = some v.token) ∨
      (∀ v ∈ visits, v.found.dataset.isEmpty = true) ∧ s.dataset = {} ∧ s.next = none := by
  cases h with
  | tired hempty => exact .inr ⟨hempty, rfl, rfl⟩
  | finished hempty => exact .inr ⟨hempty, rfl, rfl⟩
  | @accepted visits v _ hfound => exact .inl ⟨v, by simp, hfound, rfl, rfl⟩

/-- The plan ends within a step exactly if all pages are empty and the budget is not spent. -/
theorem exhausted_iff (h : w.StepEnd plan token apiCalls budget visits s) :
    s.exhausted = true ↔
      visits.length < budget ∧ ∀ v ∈ visits, v.found.dataset.isEmpty = true := by
  cases h with
  | tired _ hlength => simp [WalkStep.tired, hlength]
  | finished hempty hlength => simpa [WalkStep.finished, hlength] using hempty
  | @accepted visits v _ hfound =>
    suffices ∃ u ∈ visits ++ [v], u.found.dataset.isEmpty = false by
      simpa [WalkStep.accepted] using fun _ => this
    exact ⟨v, by simp, hfound⟩

theorem resumeAt_of_exhausted (h : w.StepEnd plan token apiCalls budget visits s)
    (hexhausted : s.exhausted = true) : s.resumeAt = plan.size := by
  cases h with
  | tired => cases hexhausted
  | finished => exact size_planAfterAll w plan visits
  | accepted => cases hexhausted

theorem resumeAt_of_not_exhausted (h : w.StepEnd plan token apiCalls budget visits s)
    (hexhausted : s.exhausted = false) : s.resumeAt = (Visit.after token visits).row := by
  cases h with
  | tired => rfl
  | finished => cases hexhausted
  | accepted _ hfound =>
    rw [Visit.after_concat, Visit.next_of_not_isEmpty hfound]
    rfl

theorem nextCircle_of_exhausted (h : w.StepEnd plan token apiCalls budget visits s)
    (hexhausted : s.exhausted = true) :
    (w.planAfterAll plan visits).nextCircle (Visit.after token visits).row = none := by
  cases h with
  | tired => cases hexhausted
  | finished _ _ hend => exact hend
  | accepted => cases hexhausted

end StepEnd

/-! ## The pages of a step -/

/-- A row was searched, or marked as passed over, on some pages. -/
def Passes (w : Walker π ρ) (plan : Plan) (visits : List Visit) (row : Nat) : Prop :=
  (∃ v ∈ visits, v.row = row) ∨
    ∃ level, Plan.entry? (w.planAfterAll plan visits) row = some (.skip level)

namespace StepRun

/-- Every step that does not fail ends in one of the ways. -/
theorem stepEnd (h : w.StepRun search plan token apiCalls budget world visits result last)
    (hok : result = .ok s) : w.StepEnd plan token apiCalls budget visits s := by
  induction h with
  | tired =>
    obtain rfl := Except.ok.inj hok
    exact .tired (by simp) rfl
  | finished hend =>
    obtain rfl := Except.ok.inj hok
    exact .finished (by simp) (Nat.succ_pos _) hend
  | failed => cases hok
  | @accepted plan token apiCalls budget _ v _ hfound =>
    obtain rfl := Except.ok.inj hok
    have hend : w.StepEnd plan token apiCalls (budget + 1) ([] ++ [v]) _ :=
      .accepted (by simp) hfound (Nat.succ_pos budget)
    simpa [Visit.apiCallsOf, planAfterAll] using hend
  | passed _ hempty _ ih => exact (ih hok).cons hempty

/-- The search was asked for the pages of the step, in order and once each. -/
theorem search_eq (h : w.StepRun search plan token apiCalls budget world visits result last)
    (hok : result = .ok s) : last.search = search.askAll (visits.map (·.geo)) world.search := by
  induction h with
  | tired => rfl
  | finished => rfl
  | failed => cases hok
  | accepted => rfl
  | passed _ _ _ ih => exact ih hok

/-- If written rows are kept, the source has the plan at hand also after a step. -/
theorem planOf_last (h : w.StepRun search plan token apiCalls budget world visits result last)
    (hkeeps : w.plans.Keeps name) (hplan : w.planOf name world = .ok plan) :
    w.planOf name last = .ok (w.planAfterAll plan visits) := by
  induction h with
  | tired => exact hplan
  | finished => exact hplan
  | failed => exact hplan
  | accepted => exact planOf_worldAfter hkeeps hplan
  | passed _ _ _ ih => exact ih (planOf_worldAfter hkeeps hplan)

/-- Each page is the next one of the plan at hand, after what the pages before it marked. -/
theorem finds (h : w.StepRun search plan token apiCalls budget world visits result last)
    {before after : List Visit} (hsplit : visits = before ++ v :: after) :
    search.Finds (w.planAfterAll plan before) (Visit.after token before)
      (search.askAll (before.map (·.geo)) world.search) v := by
  induction h generalizing before with
  | tired => simp at hsplit
  | finished => simp at hsplit
  | failed => simp at hsplit
  | accepted hfinds =>
    cases before with
    | nil =>
      obtain ⟨rfl, -⟩ := List.cons.inj hsplit
      exact hfinds
    | cons => simp at hsplit
  | passed hfinds hempty _ ih =>
    cases before with
    | nil =>
      obtain ⟨rfl, -⟩ := List.cons.inj hsplit
      exact hfinds
    | cons u before =>
      obtain ⟨rfl, hlater⟩ := List.cons.inj hsplit
      rw [Visit.after_cons, Visit.next_of_isEmpty hempty]
      exact ih hlater

theorem le_row (h : w.StepRun search plan token apiCalls budget world visits result last) :
    ∀ v ∈ visits, token.row ≤ v.row := by
  induction h with
  | tired => simp
  | finished => simp
  | failed => simp
  | accepted hfinds => simpa using (Plan.nextCircle_eq_some hfinds.circle).1
  | passed hfinds _ _ ih =>
    have hle := (Plan.nextCircle_eq_some hfinds.circle).1
    refine List.forall_mem_cons.mpr ⟨hle, fun v' hv' => ?_⟩
    exact hle.trans ((Nat.le_succ _).trans (ih v' hv'))

/-- The rows are searched in order, each once. -/
theorem pairwise_row (h : w.StepRun search plan token apiCalls budget world visits result last) :
    visits.Pairwise (·.row < ·.row) := by
  induction h with
  | tired => exact .nil
  | finished => exact .nil
  | failed => exact .nil
  | accepted => exact List.pairwise_singleton _ _
  | passed _ _ hlater ih => exact .cons hlater.le_row ih

/-- What is searched was to be searched from the start. -/
theorem entry?_row (h : w.StepRun search plan token apiCalls budget world visits result last) :
    ∀ v ∈ visits, plan.entry? v.row = some (.circle v.level v.geo.circle) := by
  induction h with
  | tired => simp
  | finished => simp
  | failed => simp
  | accepted hfinds => simpa using (Plan.nextCircle_eq_some hfinds.circle).2.1
  | passed hfinds _ _ ih =>
    refine List.forall_mem_cons.mpr ⟨(Plan.nextCircle_eq_some hfinds.circle).2.1, fun v' hv' => ?_⟩
    exact (marks_planAfter _ _).entry?_of_circle (ih v' hv')

/-- No row is searched behind the end of the plan. -/
theorem entry?_ne_finish
    (h : w.StepRun search plan token apiCalls budget world visits result last) {j : Nat}
    (hj : token.row ≤ j) : ∀ v ∈ visits, j ≤ v.row → plan.entry? j ≠ some .finish := by
  have hhead : ∀ {plan : Plan} {token : ResumeToken} {state : ω} {v : Visit},
      search.Finds plan token state v → token.row ≤ j → j ≤ v.row →
        plan.entry? j ≠ some .finish := by
    intro plan token state v hfinds hj hle
    obtain ⟨-, hcircle, hskips⟩ := Plan.nextCircle_eq_some hfinds.circle
    rcases Nat.lt_or_eq_of_le hle with hlt | rfl
    · obtain ⟨l, hskip⟩ := hskips j hj hlt
      simp [hskip]
    · simp [hcircle]
  induction h with
  | tired => simp
  | finished => simp
  | failed => simp
  | accepted hfinds => simpa using hhead hfinds hj
  | @passed plan token _ _ _ v later _ _ hfinds _ _ ih =>
    refine List.forall_mem_cons.mpr ⟨hhead hfinds hj, fun v' hv' hle => ?_⟩
    rcases Nat.lt_or_ge v.row j with hlt | hge
    · rw [Ne, ← (marks_planAfter (w := w) plan v).entry?_finish_iff]
      exact ih hlt v' hv' hle
    · exact hhead hfinds hj hge

theorem row_le_after (h : w.StepRun search plan token apiCalls budget world visits result last) :
    token.row ≤ (Visit.after token visits).row := by
  cases List.eq_nil_or_concat visits with
  | inl hnil => simp [hnil, Visit.after]
  | inr hconcat =>
    obtain ⟨init, v, rfl⟩ := hconcat
    rw [List.concat_eq_append, Visit.after_concat]
    exact (h.le_row v (by simp)).trans v.row_next_bounds.1

/-- Every circle between the row that a step starts at and the row where it stands after its pages
was searched, or was marked.  The induction is on the pages without features. -/
theorem passes (h : w.StepRun search plan token apiCalls budget world visits result last)
    (hcircle : plan.entry? i = some (.circle level c)) (hle : token.row ≤ i)
    (hlt : i < (Visit.after token visits).row) : w.Passes plan visits i := by
  induction h with
  | tired => exact absurd hlt (Nat.not_lt.mpr hle)
  | finished => exact absurd hlt (Nat.not_lt.mpr hle)
  | failed => exact absurd hlt (Nat.not_lt.mpr hle)
  | @accepted _ _ _ _ _ v hfinds =>
    have hrow := row_le_of_finds hfinds hcircle hle
    have hnext : i < v.row + 1 := Nat.lt_of_lt_of_le hlt v.row_next_bounds.2
    exact .inl ⟨v, List.mem_singleton_self v, by omega⟩
  | @passed plan _ _ _ _ v later _ _ hfinds hempty _ ih =>
    rw [Visit.after_cons, Visit.next_of_isEmpty hempty] at hlt
    have hmarks := marks_planAfter (w := w) plan v
    rcases Nat.lt_or_eq_of_le (row_le_of_finds hfinds hcircle hle) with hrow | rfl
    · rcases hmarks.entry?_circle_or_skip hcircle with hcircle | hskip
      · rcases ih hcircle hrow hlt with ⟨v', hv', hi⟩ | hskip
        · exact .inl ⟨v', List.mem_cons_of_mem v hv', hi⟩
        · exact .inr hskip
      · exact .inr ⟨level, (marks_planAfterAll _ later).entry?_of_skip hskip⟩
    · exact .inl ⟨v, List.mem_cons_self, rfl⟩

/-- If the plan ends where the step stands after its pages, every circle up to the first closing row
was searched, or was marked. -/
theorem passes_of_finished
    (h : w.StepRun search plan token apiCalls budget world visits result last)
    (hend : (w.planAfterAll plan visits).nextCircle (Visit.after token visits).row = none)
    (hcircle : plan.entry? i = some (.circle level c)) (hle : token.row ≤ i)
    (hopen : ∀ j, token.row ≤ j → j < i → plan.entry? j ≠ some .finish) :
    w.Passes plan visits i := by
  have hmarks := marks_planAfterAll (w := w) plan visits
  by_cases hlt : i < (Visit.after token visits).row
  · exact h.passes hcircle hle hlt
  · refine .inr ⟨level, (hmarks.entry?_circle_or_skip hcircle).resolve_left fun hleft => ?_⟩
    obtain ⟨j, hj, hji, hfinish⟩ := Plan.exists_finish_of_nextCircle hend (by omega) hleft
    exact hopen j (h.row_le_after.trans hj) hji (hmarks.entry?_finish_iff.mp hfinish)

end StepRun

/-! ## What a step does -/

/-- If a part of a result is known, there is a result, and it has this part. -/
theorem exists_eq_ok_of_map {ε α β : Type} {x : Except ε α} {f : α → β} {b : β}
    (h : x.map f = .ok b) : ∃ a, x = .ok a ∧ f a = b := by
  cases x with
  | error e => cases h
  | ok a => exact ⟨a, rfl, Except.ok.inj h⟩

/-- What a step of a walk does, from the row of its token on. -/
structure StepExtent (w : Walker π ρ) (search : CircleSearch ω) (plan : Plan) (token : ResumeToken)
    (world last : WalkWorld ω π ρ) (visits : List Visit) (s : WalkStep) : Prop where
  finds : ∀ before v after, visits = before ++ v :: after →
    search.Finds (w.planAfterAll plan before) (Visit.after token before)
      (search.askAll (before.map (·.geo)) world.search) v
  asked : last.search = search.askAll (visits.map (·.geo)) world.search
  length_le : visits.length ≤ w.settings.maxEmptySteps
  circle : ∀ v ∈ visits, token.row ≤ v.row ∧
    plan.entry? v.row = some (.circle v.level v.geo.circle)
  increasing : visits.Pairwise (·.row < ·.row)
  not_closed : ∀ v ∈ visits, ∀ j, token.row ≤ j → j ≤ v.row → plan.entry? j ≠ some .finish
  empty : ∀ v ∈ visits.dropLast, v.found.dataset.isEmpty = true
  answer : (∃ v, visits.getLast? = some v ∧ v.found.dataset.isEmpty = false ∧
      s.dataset = v.found.dataset ∧ s.next = some v.token) ∨
    (∀ v ∈ visits, v.found.dataset.isEmpty = true) ∧ s.dataset = {} ∧ s.next = none
  exhausted_iff : s.exhausted = true ↔ visits.length < w.settings.maxEmptySteps ∧
    ∀ v ∈ visits, v.found.dataset.isEmpty = true
  resumeAt_of_exhausted : s.exhausted = true → s.resumeAt = plan.size
  passes_of_exhausted : s.exhausted = true → ∀ i level c,
    plan.entry? i = some (.circle level c) → token.row ≤ i →
      (∀ j, token.row ≤ j → j < i → plan.entry? j ≠ some .finish) → w.Passes plan visits i
  resumeAt_of_not_exhausted : s.exhausted = false →
    s.resumeAt = (Visit.after token visits).row
  passes_of_not_exhausted : s.exhausted = false → ∀ i level c,
    plan.entry? i = some (.circle level c) → token.row ≤ i → i < s.resumeAt →
      w.Passes plan visits i

/-- A step that succeeds reads a plan and searches circles of it in order, from the row of its token
on and before the first closing row after it: at most as many as it may go through, all but the last
without places.  It answers the places of the last one, if there are any, and nothing otherwise.  It
reached the end of the plan exactly if it went through fewer empty circles and found no place; then
every circle up to the first closing row was searched or marked.  Otherwise this holds of all
circles before the row where the walk goes on.  What is marked is so in the source afterwards, if
this keeps what is written to it. -/
theorem exists_stepExtent (hstep : ((w.step search name token).run world).1 = .ok s) :
    let last := ((w.step search name token).run world).2
    let visits := w.visits search name token world
    ∃ plan, w.planOf name world = .ok plan ∧
      w.StepExtent search plan token world last visits s ∧
      (w.plans.Keeps name → w.planOf name last = .ok (w.planAfterAll plan visits)) := by
  intro last visits
  cases hplan : w.planOf name world with
  | error e =>
    rw [run_step_of_error hplan] at hstep
    cases hstep
  | ok plan =>
    have hrun : w.StepRun search plan token 0 w.settings.maxEmptySteps world visits _ last :=
      stepRun hplan token
    have hend := hrun.stepEnd hstep
    refine ⟨plan, rfl, ?_, fun hkeeps => hrun.planOf_last hkeeps hplan⟩
    exact {
      finds := fun before v after hsplit => hrun.finds hsplit
      asked := hrun.search_eq hstep
      length_le := hend.length_le
      circle := fun v hv => ⟨hrun.le_row v hv, hrun.entry?_row v hv⟩
      increasing := hrun.pairwise_row
      not_closed := fun v hv j hj => hrun.entry?_ne_finish hj v hv
      empty := hend.isEmpty_of_mem_dropLast
      answer := hend.answer
      exhausted_iff := hend.exhausted_iff
      resumeAt_of_exhausted := hend.resumeAt_of_exhausted
      passes_of_exhausted := fun hexhausted i level c hcircle hle hopen =>
        hrun.passes_of_finished (hend.nextCircle_of_exhausted hexhausted) hcircle hle hopen
      resumeAt_of_not_exhausted := hend.resumeAt_of_not_exhausted
      passes_of_not_exhausted := fun hexhausted i level c hcircle hle hlt =>
        hrun.passes hcircle hle (hend.resumeAt_of_not_exhausted hexhausted ▸ hlt) }

/-- All circles are empty, and the plan is closed before its last row: the circle inside the first
one is marked, and the one behind the closing row is not searched. -/
theorem exists_stepExtent_of_row_behind_end :
    let rows := ["10.0_10.0_1000.0_circle=1", "11.0_11.0_500.0_circle=1.1",
      "12.0_12.0_1000.0_circle=2", "end of search plan", "13.0_13.0_1000.0_circle=3"]
    let search : CircleSearch Nat := fun _ asked => (.ok {}, asked + 1)
    let w : Walker (Table (List String)) (Table PlanState) :=
      { plans := .inMemory, progress := .inMemory, clock := fun n => .ofSeconds n }
    let world : WalkWorld Nat (Table (List String)) (Table PlanState) :=
      { search := 0, plans := [("p", rows)], progress := [] }
    let run := (w.step search "p" {}).run world
    let visits := w.visits search "p" {} world
    run.2.search = 2 ∧ visits.map (·.row) = [0, 2] ∧
      w.plans.read "p" run.2.plans = .ok ["10.0_10.0_1000.0_circle=1",
        "11.0_11.0_500.0_circle=1.1_skip", "12.0_12.0_1000.0_circle=2", "end of search plan",
        "13.0_13.0_1000.0_circle=3"] ∧
      ∃ s plan, run.1 = .ok s ∧ s.exhausted = true ∧ s.resumeAt = 5 ∧
        w.planOf "p" world = .ok plan ∧ w.StepExtent search plan {} world run.2 visits s ∧
        w.planOf "p" run.2 = .ok (w.planAfterAll plan visits) := by
  intro rows search w world run visits
  have hanswer : run.1.map (fun s => (s.exhausted, s.resumeAt)) = .ok (true, 5) := by
    decide +kernel
  obtain ⟨s, hs, hfields⟩ : ∃ s, run.1 = .ok s ∧ (s.exhausted, s.resumeAt) = (true, 5) :=
    exists_eq_ok_of_map hanswer
  obtain ⟨hexhausted, hresume⟩ := Prod.mk.inj hfields
  obtain ⟨plan, hplan, hextent, hsource⟩ := exists_stepExtent hs
  exact ⟨by decide +kernel, by decide +kernel, by decide +kernel, s, plan, hs, hexhausted,
    hresume, hplan, hextent, hsource (PlanSource.keeps_inMemory "p")⟩

end Walker

end PlaceSearch
