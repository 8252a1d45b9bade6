import PlaceSearch.Proofs.Walk.Cover
import PlaceSearch.Proofs.Walk.Progress

/-!
# Where the cursor of a token goes

A token may name a cursor, which the provider gave out for the circle of the row that the token
names.  A step uses it for the first circle that it searches, and for no other.  That is the circle
of the token's row, unless this row was marked as passed over since the token was handed out: then
the step begins with a later row, and the cursor goes there with it.

What a step searches is more than what it reads, since the last search may fail.  That these are the
searches which are made is shown by a search that notes what it is asked for.
-/

namespace PlaceSearch

/-- A search of the circle of a row, at a page. -/
structure RowSearch where
  row : Nat
  geo : Geo

/-- Whether the page that is searched belongs to the circle that is searched, for a token whose
cursor belongs to the circle of its row. -/
def RowSearch.IsOwn (token : ResumeToken) (s : RowSearch) : Prop :=
  s.geo.page = if s.row = token.row then token.cursor else none

/-- A search that notes what it is asked for, latest first. -/
def CircleSearch.noted {ω : Type} (search : CircleSearch ω) : CircleSearch (ω × List Geo) :=
  fun geo state =>
    let (found, s) := (search geo).run state.1
    (found, s, geo :: state.2)

theorem Visit.row_token_of_cursor {v : Visit} (h : v.token.cursor ≠ none) :
    v.token.row = v.row := by
  rw [token] at h ⊢
  cases hnext : v.found.nextCursor with
  | none => simp [hnext, ResumeToken.of] at h
  | some c => rfl

section Notes

variable {ω π ρ : Type}

/-- The world with nothing noted yet. -/
def WalkWorld.startNotes (world : WalkWorld ω π ρ) : WalkWorld (ω × List Geo) π ρ :=
  { world with search := (world.search, []) }

/-- The world without the notes. -/
def WalkWorld.dropNotes (world : WalkWorld (ω × List Geo) π ρ) : WalkWorld ω π ρ :=
  { world with search := world.search.1 }

end Notes

namespace Walker

variable {ω π ρ : Type} (w : Walker π ρ) (search : CircleSearch ω)

/-- The searches that a step makes from a token on, if it goes through at most `budget` further
empty pages. -/
def searchesFrom (plan : Plan) (token : ResumeToken) : Nat → WalkWorld ω π ρ → List RowSearch
  | 0, _ => []
  | budget + 1, world =>
    match plan.nextCircle token.row with
    | none => []
    | some (row, level, circle) =>
      let geo := (Geo.ofCircle circle).atPage token.cursor
      let later :=
        match ((search geo).run world.search).1 with
        | .error _ => []
        | .ok found =>
          if found.dataset.isEmpty then
            let v : Visit := ⟨row, level, geo, found⟩
            searchesFrom (w.planAfter plan v) (.of none (row + 1)) budget
              (w.worldAfter search plan v world)
          else []
      ⟨row, geo⟩ :: later

/-- The searches that a step of a walk makes. -/
def searches (name : String) (token : ResumeToken) (world : WalkWorld ω π ρ) : List RowSearch :=
  match w.planOf name world with
  | .error _ => []
  | .ok plan => w.searchesFrom search plan token w.settings.maxEmptySteps world

variable {w search} {plan : Plan} {token : ResumeToken} {name : String} {apiCalls budget : Nat}
  {world last : WalkWorld ω π ρ} {v : Visit} {visits : List Visit}
  {result : Except Error WalkStep} {s : RowSearch}

/-! ## The searches of a step -/

theorem searchesFrom_of_nextCircle_eq_none (h : plan.nextCircle token.row = none) :
    w.searchesFrom search plan token (budget + 1) world = [] := by
  rw [searchesFrom, h]

theorem searchesFrom_of_finds (h : search.Finds plan token world.search v) :
    w.searchesFrom search plan token (budget + 1) world = ⟨v.row, v.geo⟩ ::
      if v.found.dataset.isEmpty then
        w.searchesFrom search (w.planAfter plan v) (.of none (v.row + 1)) budget
          (w.worldAfter search plan v world)
      else [] := by
  rw [searchesFrom, h.circle]
  simp only [← h.geo, h.answer]

/-- A step that searches at all begins with the next circle of the plan, at the cursor of the token;
if it goes on, it does so with the first page of a later row of a plan with further marks. -/
theorem searchesFrom_eq_cons (w : Walker π ρ) (search : CircleSearch ω) (budget : Nat)
    (world : WalkWorld ω π ρ) {row : Nat} {level : String} {circle : Circle}
    (h : plan.nextCircle token.row = some (row, level, circle)) :
    ∃ later, w.searchesFrom search plan token (budget + 1) world =
        ⟨row, (Geo.ofCircle circle).atPage token.cursor⟩ :: later ∧
      (later = [] ∨ ∃ plan' world', plan.Marks plan' ∧
        later = w.searchesFrom search plan' (.of none (row + 1)) budget world') := by
  rw [searchesFrom, h]
  refine ⟨_, rfl, ?_⟩
  split
  · exact .inl rfl
  · split
    · exact .inr ⟨_, _, marks_planAfter plan _, rfl⟩
    · exact .inl rfl

/-- What is searched is a circle of the plan, of the row of the token or a later one. -/
theorem entry?_of_mem_searchesFrom (hs : s ∈ w.searchesFrom search plan token budget world) :
    token.row ≤ s.row ∧ ∃ level, plan.entry? s.row = some (.circle level s.geo.circle) := by
  induction budget generalizing plan token world with
  | zero => cases hs
  | succ budget ih =>
    cases hnext : plan.nextCircle token.row with
    | none =>
      rw [searchesFrom_of_nextCircle_eq_none hnext] at hs
      cases hs
    | some next =>
      obtain ⟨row, level, circle⟩ := next
      obtain ⟨hle, hentry, -⟩ := Plan.nextCircle_eq_some hnext
      obtain ⟨later, heq, hlater⟩ := searchesFrom_eq_cons w search budget world hnext
      rw [heq] at hs
      rcases List.mem_cons.mp hs with rfl | hs
      · exact ⟨hle, level, hentry⟩
      · rcases hlater with rfl | ⟨plan', world', hmarks, rfl⟩
        · cases hs
        · obtain ⟨hrow, level', hentry'⟩ := ih hs
          exact ⟨hle.trans (Nat.le_of_succ_le hrow), level', hmarks.entry?_of_circle hentry'⟩

/-- Without a cursor no search asks for a later page.  The induction is on the empty pages. -/
theorem page_of_mem_searchesFrom (hcursor : token.cursor = none)
    (hs : s ∈ w.searchesFrom search plan token budget world) : s.geo.page = none := by
  induction budget generalizing plan token world with
  | zero => cases hs
  | succ budget ih =>
    cases hnext : plan.nextCircle token.row with
    | none =>
      rw [searchesFrom_of_nextCircle_eq_none hnext] at hs
      cases hs
    | some next =>
      obtain ⟨row, level, circle⟩ := next
      obtain ⟨later, heq, hlater⟩ := searchesFrom_eq_cons w search budget world hnext
      rw [heq] at hs
      rcases List.mem_cons.mp hs with rfl | hs
      · rw [hcursor]
        rfl
      · rcases hlater with rfl | ⟨plan', world', -, rfl⟩
        · cases hs
        · exact ih rfl hs

/-- The first search of a step is of the next circle of the plan, at the cursor of the token; all
others are of later rows, and at their first pages. -/
theorem searches_eq_cons (hplan : w.planOf name world = .ok plan) {first : RowSearch}
    {later : List RowSearch} (h : w.searches search name token world = first :: later) :
    plan.nextRunnable token.row = some first.row ∧
      first.geo.page = token.cursor.filter (!·.isEmpty) ∧
      ∀ s ∈ later, first.row < s.row ∧ s.geo.page = none := by
  rw [searches, hplan] at h
  simp only at h
  cases hbudget : w.settings.maxEmptySteps with
  | zero =>
    rw [hbudget] at h
    cases h
  | succ budget =>
    rw [hbudget] at h
    cases hnext : plan.nextCircle token.row with
    | none =>
      rw [searchesFrom_of_nextCircle_eq_none hnext] at h
      cases h
    | some next =>
      obtain ⟨row, level, circle⟩ := next
      obtain ⟨later', heq, hlater⟩ := searchesFrom_eq_cons w search budget world hnext
      obtain ⟨rfl, rfl⟩ := List.cons.inj (h.symm.trans heq)
      refine ⟨by rw [Plan.nextRunnable, hnext]; rfl, rfl, fun s hs => ?_⟩
      rcases hlater with rfl | ⟨plan', world', -, rfl⟩
      · cases hs
      · exact ⟨(entry?_of_mem_searchesFrom hs).1, page_of_mem_searchesFrom rfl hs⟩

/-! ## Walks with notes -/

theorem StepRun.dropNotes {world last : WalkWorld (ω × List Geo) π ρ}
    (h : w.StepRun search.noted plan token apiCalls budget world visits result last) :
    w.StepRun search plan token apiCalls budget world.dropNotes visits result last.dropNotes ∧
      last.search.2 = ((w.searchesFrom search plan token budget world.dropNotes).map
        (·.geo)).reverse ++ world.search.2 := by
  induction h with
  | tired => exact ⟨.tired, rfl⟩
  | finished hend =>
    refine ⟨.finished hend, ?_⟩
    rw [searchesFrom_of_nextCircle_eq_none hend]
    rfl
  | @failed plan token _ _ world _ _ circle _ hcircle hfail =>
    refine ⟨.failed hcircle hfail, ?_⟩
    have hfail' : ((search ((Geo.ofCircle circle).atPage token.cursor)).run
      world.dropNotes.search).1 = .error _ := hfail
    rw [searchesFrom, hcircle]
    simp only [hfail']
    rfl
  | accepted hfinds hfound =>
    have hfinds' : search.Finds _ _ _ _ := ⟨hfinds.circle, hfinds.geo, hfinds.answer⟩
    refine ⟨.accepted hfinds' hfound, ?_⟩
    rw [searchesFrom_of_finds hfinds', if_neg (by simp [hfound])]
    rfl
  | @passed plan token _ budget world v _ _ _ hfinds hempty _ ih =>
    have hfinds' : search.Finds plan token world.dropNotes.search v :=
      ⟨hfinds.circle, hfinds.geo, hfinds.answer⟩
    have hworld : (w.worldAfter search.noted plan v world).dropNotes =
        w.worldAfter search plan v world.dropNotes := rfl
    have hnotes : (w.worldAfter search.noted plan v world).search.2 =
        v.geo :: world.search.2 := rfl
    obtain ⟨hrun, hlast⟩ := ih
    rw [hworld] at hrun hlast
    refine ⟨.passed hfinds' hempty hrun, ?_⟩
    rw [hlast, hnotes, searchesFrom_of_finds hfinds', if_pos hempty]
    simp

/-- A step asks for these searches in this order, and does the same without the notes. -/
theorem run_step_dropNotes (w : Walker π ρ) (search : CircleSearch ω) (name : String)
    (token : ResumeToken) (world : WalkWorld ω π ρ) :
    let run := (w.step search.noted name token).run world.startNotes
    (w.step search name token).run world = (run.1, run.2.dropNotes) ∧
      run.2.search.2.reverse = (w.searches search name token world).map (·.geo) := by
  cases hplan : w.planOf name world with
  | error e =>
    have hplan' : w.planOf name world.startNotes = .error e := hplan
    rw [run_step_of_error hplan, run_step_of_error hplan', searches, hplan]
    exact ⟨rfl, rfl⟩
  | ok plan =>
    have hplan' : w.planOf name world.startNotes = .ok plan := hplan
    have hnoted : w.StepRun search.noted plan token 0 w.settings.maxEmptySteps world.startNotes _ _
      _ := stepRun hplan' token
    obtain ⟨hrun, hnotes⟩ := hnoted.dropNotes
    have hstart : world.startNotes.search.2 = [] := rfl
    have hdrop : world.startNotes.dropNotes = world := rfl
    rw [hstart, hdrop, List.append_nil] at hnotes
    rw [hdrop] at hrun
    intro run
    rw [run_step hplan, searches, hplan]
    exact ⟨hrun.run_eq.1, by rw [hnotes, List.reverse_reverse]⟩

/-! ## Cursors that a step hands out -/

/-- A step hands out a cursor for a row that is a circle of the plan that the source then has: a
page marks only circles below its own. -/
theorem StepRun.entry?_of_cursor
    (h : w.StepRun search plan token apiCalls budget world visits result last)
    (hplans : w.plans.IsHonest name) (hrows : Plan.ofRows name plan.rows = .ok plan)
    {stored : Plan} (hstored : w.planOf name world = .ok stored) (hmarks : stored.Marks plan)
    {step : WalkStep} (hstep : result = .ok step) {next : ResumeToken}
    (hnext : step.next = some next) (hcursor : next.cursor ≠ none) :
    ∃ final level circle, w.planOf name last = .ok final ∧
      final.entry? next.row = some (.circle level circle) := by
  induction h generalizing stored with
  | tired =>
    obtain rfl := Except.ok.inj hstep
    cases hnext
  | finished =>
    obtain rfl := Except.ok.inj hstep
    cases hnext
  | failed => cases hstep
  | @accepted plan _ _ _ _ v hfinds =>
    obtain rfl := Except.ok.inj hstep
    obtain rfl := Option.some.inj hnext
    obtain ⟨final, hfinal, -, hmarks'⟩ :=
      exists_planOf_worldAfter (v := v) hplans hrows hstored hmarks
    have hrow : v.token.row = v.row := Visit.row_token_of_cursor hcursor
    -- No level lies below itself, so the row of the page is a circle still.
    have hkept : Plan.entry? (w.planAfter plan v) v.row = some (.circle v.level v.geo.circle) := by
      obtain ⟨-, hentry, -⟩ := Plan.nextCircle_eq_some hfinds.circle
      rw [planAfter]
      split
      · rw [Plan.skipBelow_eq, Plan.entry?_markBelow hentry]
        simp [PlanEntry.markBelow, PlanEntry.levelBelow_self]
      · exact hentry
    exact ⟨final, v.level, v.geo.circle, hfinal, hrow ▸ hmarks'.entry?_of_circle hkept⟩
  | @passed plan _ _ _ _ v _ _ _ _ _ _ ih =>
    obtain ⟨stored', hstored', -, hmarks'⟩ :=
      exists_planOf_worldAfter (v := v) hplans hrows hstored hmarks
    exact ih (ofRows_planAfter hrows v) hstored' hmarks' hstep

/-- A cursor that a step handed out leads back to the circle of its row, as long as the plan is not
written by anything else. -/
theorem entry?_of_handed_out (hplans : w.plans.IsHonest name)
    (hplan : w.planOf name world = .ok plan) {before : ResumeToken}
    {earlier later : WalkWorld ω π ρ} {step : WalkStep}
    (hstep : (w.step search name before).run earlier = (.ok step, later))
    (hnext : step.next = some token) (hcursor : token.cursor ≠ none)
    (hsame : world.plans = later.plans) :
    ∃ level circle, plan.entry? token.row = some (.circle level circle) := by
  cases hearlier : w.planOf name earlier with
  | error e =>
    rw [run_step_of_error hearlier] at hstep
    cases hstep
  | ok first =>
    have hrun : w.StepRun search first before 0 w.settings.maxEmptySteps earlier _ _ _ :=
      stepRun hearlier before
    rw [hstep] at hrun
    obtain ⟨final, level, circle, hfinal, hentry⟩ := hrun.entry?_of_cursor hplans
      (planOf_eq_ok_iff.mp hearlier).2 hearlier (.refl first) rfl hnext hcursor
    rw [planOf, ← hsame] at hfinal
    obtain rfl := Except.ok.inj (hplan.symm.trans hfinal)
    exact ⟨level, circle, hentry⟩

/-! ## The cursor of a token -/

/-- The cursor of a token goes to the circle of its row, and to no other, exactly if this row is
still a circle, or nothing is searched at all. -/
theorem forall_isOwn_iff (search : CircleSearch ω) (hplan : w.planOf name world = .ok plan)
    {c : String} (hcursor : token.cursor = some c) (hc : c ≠ "") :
    (∀ s ∈ w.searches search name token world, s.IsOwn token) ↔
      w.searches search name token world = [] ∨
        ∃ level circle, plan.entry? token.row = some (.circle level circle) := by
  cases hsearches : w.searches search name token world with
  | nil => simp
  | cons first later =>
    obtain ⟨hnext, hfirst, hlater⟩ := searches_eq_cons hplan hsearches
    have hpage : first.geo.page = some c := by simp [hfirst, hcursor, hc]
    obtain ⟨⟨row, level, circle⟩, hcircle, hrow⟩ := Option.map_eq_some_iff.mp hnext
    obtain rfl : row = first.row := hrow
    simp only [List.forall_mem_cons, reduceCtorEq, false_or]
    constructor
    · rintro ⟨hown, -⟩
      rw [RowSearch.IsOwn, hpage, hcursor] at hown
      obtain ⟨-, hentry, -⟩ := Plan.nextCircle_eq_some hcircle
      by_cases hrow : first.row = token.row
      · exact ⟨level, circle, hrow ▸ hentry⟩
      · rw [if_neg hrow] at hown
        cases hown
    · rintro ⟨level', circle', hentry⟩
      rw [Plan.nextCircle_of_entry? hentry] at hcircle
      obtain ⟨hrow, -⟩ := Prod.mk.inj (Option.some.inj hcircle)
      refine ⟨by rw [RowSearch.IsOwn, hpage, if_pos hrow.symm, hcursor], fun s hs => ?_⟩
      obtain ⟨hlt, hnone⟩ := hlater s hs
      rw [RowSearch.IsOwn, hnone, if_neg (by omega)]

/-- The searches that a step makes from a token with a cursor are of circles of the plan, the first
one of the first circle from the row of the token on and at the cursor, all others of later rows and
at their first pages.  So the cursor goes to the circle of its row, and to no other, exactly if this
row is still a circle, or nothing is searched at all.  It is one if the token was handed out by a
step and nothing else wrote the plan since then. -/
theorem searches_at_own_row_iff (search : CircleSearch ω) (hplan : w.planOf name world = .ok plan)
    (hcursor : ∃ c, token.cursor = some c ∧ c ≠ "") :
    let searches := w.searches search name token world
    ((w.step search.noted name token).run world.startNotes).2.search.2.reverse =
        searches.map (·.geo) ∧
      (∀ s ∈ searches, ∃ level, plan.entry? s.row = some (.circle level s.geo.circle)) ∧
      (∀ first later, searches = first :: later →
        plan.nextRunnable token.row = some first.row ∧ first.geo.page = token.cursor ∧
          ∀ s ∈ later, first.row < s.row ∧ s.geo.page = none) ∧
      ((∀ s ∈ searches, s.IsOwn token) ↔
        searches = [] ∨ ∃ level circle, plan.entry? token.row = some (.circle level circle)) ∧
      ∀ before earlier later step, (w.step search name before).run earlier = (.ok step, later) →
        step.next = some token → world.plans = later.plans → w.plans.IsHonest name →
        ∀ s ∈ searches, s.IsOwn token := by
  obtain ⟨c, hc, hne⟩ := hcursor
  have hiff := forall_isOwn_iff search hplan hc hne
  refine ⟨(run_step_dropNotes w search name token world).2, fun s hs => ?_, fun first later h => ?_,
    hiff, ?_⟩
  · rw [searches, hplan] at hs
    exact (entry?_of_mem_searchesFrom hs).2
  · obtain ⟨hnext, hpage, hlater⟩ := searches_eq_cons hplan h
    exact ⟨hnext, by simp [hpage, hc, hne], hlater⟩
  · intro before earlier later step hstep hnext hsame hplans
    exact hiff.mpr (.inr (entry?_of_handed_out hplans hplan hstep hnext (by simp [hc]) hsame))

/-- A circle has a second page, whose cursor a step hands out.  Then another step finds the circle
around it empty and marks it.  The cursor that was handed out is now used for a circle elsewhere. -/
theorem searches_at_own_row_iff_of_marked_row :
    let rows := ["10.0_10.0_1000.0_circle=1", "11.0_11.0_500.0_circle=1.1",
      "12.0_12.0_1000.0_circle=2", "end of search plan"]
    let place : Feature := { geometry := { lng := 11.0, lat := 11.0 }, properties := {} }
    let search : CircleSearch Unit := fun geo _ =>
      (.ok (if geo.circle.center.lat < 10.5 then {}
        else { dataset := { features := [place] }, nextCursor := some "d1" }), ())
    let w : Walker (Table (List String)) (Table PlanState) :=
      { plans := .inMemory, progress := .inMemory, clock := fun n => .ofSeconds n }
    let world : WalkWorld Unit (Table (List String)) (Table PlanState) :=
      { search := (), plans := [("p", rows)], progress := [] }
    let token : ResumeToken := ⟨some "d1", 1⟩
    let marked := ((w.step search "p" {}).run world).2
    ((w.step search "p" ⟨none, 1⟩).run world).1.toOption.bind (·.next) = some token ∧
      (∃ c, token.cursor = some c ∧ c ≠ "") ∧
      (w.searches search "p" token world).map (fun s => (s.row, s.geo.page)) =
        [(1, some "d1")] ∧
      (w.searches search "p" token marked).map (fun s => (s.row, s.geo.page)) =
        [(2, some "d1")] ∧
      ∃ plan, w.planOf "p" marked = .ok plan ∧
        plan.entry? 1 = some (.skip "1.1") ∧
        ¬ ∀ s ∈ w.searches search "p" token marked, s.IsOwn token := by
  intro rows place search w world token marked
  have hsearches : (w.searches search "p" token marked).map (fun s => (s.row, s.geo.page)) =
      [(2, some "d1")] := by decide +kernel
  have hcursor : ∃ c, token.cursor = some c ∧ c ≠ "" := ⟨"d1", rfl, by decide⟩
  have hread : w.plans.read "p" marked.plans = .ok ["10.0_10.0_1000.0_circle=1",
      "11.0_11.0_500.0_circle=1.1_skip", "12.0_12.0_1000.0_circle=2", "end of search plan"] := by
    decide +kernel
  obtain ⟨plan, hplan, hentry⟩ : ∃ plan, w.planOf "p" marked = .ok plan ∧
      plan.entry? 1 = some (.skip "1.1") := by
    rw [planOf, hread]
    exact ⟨_, rfl, rfl⟩
  obtain ⟨-, -, -, hiff, -⟩ := searches_at_own_row_iff search hplan hcursor
  refine ⟨by decide +kernel, hcursor, by decide +kernel, hsearches, plan, hplan, hentry, ?_⟩
  rw [hiff, hentry]
  rintro (hnil | ⟨_, _, hcircle⟩)
  · rw [hnil] at hsearches
    cases hsearches
  · cases hcircle

end Walker

end PlaceSearch
