import PlaceSearch.Database
import PlaceSearch.Proofs.Search.Plan
import PlaceSearch.Proofs.Service.Events
import PlaceSearch.Proofs.Walk.Calls
import PlaceSearch.Proofs.Walk.Cover

/-!
# Fetches that fail

A sample that fails leaves everything as it was.  A fetch of the full data whose token cannot be
read does so too, since the token is read before anything else.  The query is read later, in the
search of the first circle that is not answered from the store.  By then the plan of the query is
made if there was none, and the pages that were answered from the store are recorded and mark
circles.  What no failing fetch does is to send a request, to keep a dataset or to start a walk in
the background.
-/

namespace PlaceSearch

variable {σ π ρ : Type}

/-! ## Searches that fail -/

/-- Reading a dataset leaves the store as it is. -/
def DatasetStore.ReadsOnly (store : DatasetStore σ) : Prop :=
  ∀ key t, ((store.get key).run t).2 = t

theorem DatasetStore.readsOnly_inMemory : DatasetStore.inMemory.ReadsOnly :=
  fun _ _ => rfl

theorem DatasetStore.readsOnly_database : Database.datasetStore.ReadsOnly := by
  intro key t
  dsimp only [Database.datasetStore, StateT.run]
  cases Database.dataset? key t <;> rfl

theorem DatasetStore.readsOnly_unavailable (reason : String) :
    (DatasetStore.unavailable reason : DatasetStore σ).ReadsOnly :=
  fun _ _ => rfl

namespace Searcher

variable {s : Searcher σ}

theorem run_lookup_of_readsOnly (hstore : s.store.ReadsOnly) (key : CacheKey)
    (session : Session σ) :
    (s.lookup key).run session = (((s.lookup key).run session).1, session) := by
  have hsame : { session with store := ((s.store.get key).run session.store).2 } = session := by
    rw [hstore]
  exact Prod.ext rfl hsame

/-- A search for a query that cannot be planned is answered from the store, or fails; it leaves its
session as it was. -/
theorem run_searchDataset_of_planCalls_error (hstore : s.store.ReadsOnly) {query : String}
    {type : SearchType} {err : Error} (hplan : s.planCalls query type = .error err) (geo : Geo)
    (session : Session σ) :
    (s.searchDataset query type geo).run session =
      (match ((s.lookup (.ofQuery query type.name geo)).run session).1 with
        | some d => .ok (.ofCached d)
        | none => .error err, session) := by
  have hlookup := run_lookup_of_readsOnly hstore (.ofQuery query type.name geo) session
  cases hfound : ((s.lookup (.ofQuery query type.name geo)).run session).1 with
  | some d =>
    rw [hfound] at hlookup
    rw [searchDataset, Process.run_bind, Process.run_lift, hlookup]
    rfl
  | none =>
    rw [hfound] at hlookup
    rw [run_searchDataset_of_refused hplan hlookup]

/-- A search fails only if its query cannot be planned. -/
theorem planCalls_of_searchDataset_error {query : String} {type : SearchType} (geo : Geo)
    (session : Session σ) {err : Error}
    (h : ((s.searchDataset query type geo).run session).1 = .error err) :
    s.planCalls query type = .error err := by
  cases hfound : (s.lookup (.ofQuery query type.name geo)).run session with
  | mk found session' =>
    rw [searchDataset, Process.run_bind, Process.run_lift, hfound] at h
    cases found with
    | some d => cases h
    | none =>
      cases hplan : s.planCalls query type with
      | error e =>
        simp only [hplan] at h
        exact congrArg _ (Except.error.inj h)
      | ok calls =>
        simp only [hplan, Process.run_bind, Process.run_pure] at h
        cases h

/-- A search that fails leaves its session as it was. -/
theorem run_searchDataset_of_error (hstore : s.store.ReadsOnly) {query : String}
    {type : SearchType} {geo : Geo} {session : Session σ} {err : Error}
    (h : ((s.searchDataset query type geo).run session).1 = .error err) :
    (s.searchDataset query type geo).run session = (.error err, session) := by
  have hplan := planCalls_of_searchDataset_error geo session h
  rw [run_searchDataset_of_planCalls_error hstore hplan] at h ⊢
  exact Prod.ext h rfl

end Searcher

/-! ## Steps that fail -/

namespace Service

variable (s : Service σ π ρ)

/-- The page was answered from the store, under the key of the whole query. -/
def IsStored (query : String) (type : SearchType) (session : Session σ) (v : Visit) : Prop :=
  ∃ d, ((s.searcher.lookup (.ofQuery query type.name v.geo)).run session).1 = some d ∧
    v.found = { dataset := d, nextCursor := d.nextCursor, apiCalls := 0 }

variable {s} {query : String} {type : SearchType}

theorem run_circleSearch (geo : Geo) (session : Session σ) :
    (s.circleSearch query type geo).run session =
      Prod.map (Except.map fun r => ⟨r.dataset, r.nextCursor, r.apiCalls⟩) id
        ((s.searcher.searchDataset query type geo).run session) := by
  rw [circleSearch, StateT.run_bind]
  rfl

theorem planCalls_of_circleSearch_error {geo : Geo} {session : Session σ} {err : Error}
    (h : ((s.circleSearch query type geo).run session).1 = .error err) :
    s.searcher.planCalls query type = .error err := by
  rw [run_circleSearch] at h
  refine Searcher.planCalls_of_searchDataset_error geo session ?_
  cases hresult : ((s.searcher.searchDataset query type geo).run session).1 with
  | error e => simpa [hresult, Except.map] using h
  | ok r => simp [hresult, Except.map] at h

/-- A page of a query that cannot be planned was answered from the store. -/
theorem isStored_of_answer (hstore : s.searcher.store.ReadsOnly) {err : Error}
    (hplan : s.searcher.planCalls query type = .error err) {v : Visit} {session : Session σ}
    (h : ((s.circleSearch query type v.geo).run session).1 = .ok v.found) :
    s.IsStored query type session v := by
  rw [run_circleSearch, Searcher.run_searchDataset_of_planCalls_error hstore hplan] at h
  cases hfound : ((s.searcher.lookup (.ofQuery query type.name v.geo)).run session).1 with
  | none => simp [hfound, Except.map] at h
  | some d =>
    refine ⟨d, hfound, ?_⟩
    simp only [hfound] at h
    exact (Except.ok.inj h).symm

/-- A search for a query that cannot be planned leaves its session as it was. -/
theorem session_circleSearch (hstore : s.searcher.store.ReadsOnly) {err : Error}
    (hplan : s.searcher.planCalls query type = .error err) (geo : Geo) (session : Session σ) :
    ((s.circleSearch query type geo).run session).2 = session := by
  rw [run_circleSearch, Searcher.run_searchDataset_of_planCalls_error hstore hplan]
  rfl

end Service

namespace Walker

variable {s : Service σ π ρ} {query : String} {type : SearchType} {plan : Plan}
  {token : ResumeToken} {name : String} {apiCalls budget : Nat}
  {world last : WalkWorld (Session σ) π ρ} {visits : List Visit}
  {result : Except Error WalkStep} {err : Error}

/-- A step fails only if the query that it searches for cannot be planned. -/
theorem StepRun.planCalls_of_error
    (h : s.walker.StepRun (s.circleSearch query type) plan token apiCalls budget world visits
      result last) (herr : result = .error err) :
    s.searcher.planCalls query type = .error err := by
  induction h with
  | tired => cases herr
  | finished => cases herr
  | failed _ hfail =>
    obtain rfl := Except.error.inj herr
    exact Service.planCalls_of_circleSearch_error hfail
  | accepted => cases herr
  | passed _ _ _ ih => exact ih herr

/-- All pages of a step that searches for a query that cannot be planned are answered from the
store, and the step leaves the session as it was. -/
theorem StepRun.isStored_of_error (hstore : s.searcher.store.ReadsOnly)
    (hplan : s.searcher.planCalls query type = .error err)
    (h : s.walker.StepRun (s.circleSearch query type) plan token apiCalls budget world visits
      result last) :
    last.search = world.search ∧ ∀ v ∈ visits, s.IsStored query type world.search v := by
  induction h with
  | tired => exact ⟨rfl, by simp⟩
  | finished => exact ⟨rfl, by simp⟩
  | failed => exact ⟨Service.session_circleSearch hstore hplan _ _, by simp⟩
  | accepted hfinds =>
    refine ⟨Service.session_circleSearch hstore hplan _ _, List.forall_mem_singleton.mpr ?_⟩
    exact Service.isStored_of_answer hstore hplan hfinds.answer
  | @passed plan _ _ _ world v _ _ _ hfinds _ _ ih =>
    have hsame : (s.walker.worldAfter (s.circleSearch query type) plan v world).search =
        world.search := Service.session_circleSearch hstore hplan _ _
    rw [hsame] at ih
    exact ⟨ih.1, List.forall_mem_cons.mpr
      ⟨Service.isStored_of_answer hstore hplan hfinds.answer, ih.2⟩⟩

/-- A step that fails before it has read a page changes nothing but what its search works on. -/
theorem StepRun.last_of_nil
    (h : s.walker.StepRun (s.circleSearch query type) plan token apiCalls budget world []
      (.error err) last) :
    last = { world with search := last.search } := by
  cases h
  rfl

end Walker

/-! ## Fetches that fail -/

namespace Service

variable {s : Service σ π ρ} {state state' : ServiceState σ π ρ} {q : SearchRequest}
  {country city : String} {err : Error}

/-- A sample that fails leaves everything as it was. -/
theorem run_fetchSample_eq_error (hstore : s.searcher.store.ReadsOnly)
    (h : (s.fetchSample q).run state = (.error err, state')) : state' = state := by
  cases hresult : (s.searcher.searchDataset q.query q.type q.geo).run state.world.search with
  | mk result session =>
    have hsearch : (s.searcher.search q).run state.world.search =
        (result.map fun r => ⟨.ofDataset r.dataset q.keepIds, r.nextCursor, r.apiCalls⟩,
          session) := by
      rw [Searcher.search, Process.run_bind, hresult]
      rfl
    have hworld : (inSession (s.searcher.search q)).run state =
        (result.map fun r => ⟨.ofDataset r.dataset q.keepIds, r.nextCursor, r.apiCalls⟩,
          { state with world := { state.world with search := session } }) := by
      refine run_inWorld _ ?_
      change (((s.searcher.search q).run state.world.search).1,
        { state.world with search := ((s.searcher.search q).run state.world.search).2 }) = _
      rw [hsearch]
    rw [fetchSample, Walker.run_bind_eq hworld] at h
    obtain ⟨hfail, rfl⟩ := Prod.mk.inj h
    cases result with
    | ok r => cases hfail
    | error e =>
      have hsame := Searcher.run_searchDataset_of_error hstore (congrArg Prod.fst hresult)
      rw [hresult] at hsame
      rw [(Prod.mk.inj hsame).2]

/-- A fetch of the full data fails because its token cannot be read, because its plan cannot be had,
or because the step fails that it takes. -/
theorem run_fetchFull_eq_error (h : (s.fetchFull q country city).run state = (.error err, state')) :
    (ResumeToken.decode q.page = .error err ∧ state' = state) ∨
      ∃ token made world, ResumeToken.decode q.page = .ok token ∧
        (s.walker.ensurePlan (planName q.query country city) q.circle).run state.world =
          (made, world) ∧
        ((made = .error err ∧ state' = { state with world := world }) ∨
          ∃ plan last, made = .ok plan ∧
            (s.walker.step (s.circleSearch q.query q.type) (planName q.query country city)
              token).run { world with readings := world.readings + 1 } = (.error err, last) ∧
            state' = { state with world := last }) := by
  cases htoken : ResumeToken.decode q.page with
  | error e =>
    rw [run_fetchFull_of_decode_error htoken] at h
    obtain ⟨he, rfl⟩ := Prod.mk.inj h
    obtain rfl := Except.error.inj he
    exact .inl ⟨rfl, rfl⟩
  | ok token =>
    refine .inr ?_
    cases hplan : (s.walker.ensurePlan (planName q.query country city) q.circle).run
        state.world with
    | mk made world =>
      refine ⟨token, made, world, rfl, rfl, ?_⟩
      cases made with
      | error e =>
        rw [run_fetchFull_of_ensurePlan_error htoken hplan] at h
        obtain ⟨he, rfl⟩ := Prod.mk.inj h
        obtain rfl := Except.error.inj he
        exact .inl ⟨rfl, rfl⟩
      | ok plan =>
        refine .inr ⟨plan, ?_⟩
        cases hstep : (s.walker.step (s.circleSearch q.query q.type)
            (planName q.query country city) token).run
              { world with readings := world.readings + 1 } with
        | mk result last =>
          obtain ⟨fetched, state'', hrun, -, -, -, hfail⟩ :=
            exists_run_fetchFull htoken hplan hstep
          obtain ⟨rfl, rfl⟩ := Prod.mk.inj (h.symm.trans hrun)
          obtain ⟨rfl, hstate⟩ := hfail err rfl
          exact ⟨last, rfl, rfl, hstate⟩

/-- What a fetch of the full data leaves that fails: the same as before, if its token cannot be read.
Else the source of plans has the plan of the query, and the step that was taken, if any, has
failed. -/
theorem exists_stepRun_of_run_fetchFull_eq_error
    (h : (s.fetchFull q country city).run state = (.error err, state')) :
    let name := planName q.query country city
    (ResumeToken.decode q.page = .error err ∧ state' = state) ∨
      ∃ plans readings, (∃ token, ResumeToken.decode q.page = .ok token) ∧
        ((∀ n, s.walker.plans.read name state.world.plans ≠ .error (.planNotFound n)) →
          plans = state.world.plans) ∧
        let world := { state.world with plans := plans, readings := readings }
        (state' = { state with world := world } ∨
          ∃ plan token visits last, s.walker.planOf name world = .ok plan ∧
            s.walker.StepRun (s.circleSearch q.query q.type) plan token 0
              s.walker.settings.maxEmptySteps world visits (.error err) last ∧
            state' = { state with world := last }) := by
  intro name
  rcases run_fetchFull_eq_error h with hfail | ⟨token, made, world, htoken, hmade, hfail⟩
  · exact .inl hfail
  · obtain ⟨made', plans, hrun, -, -, hsame⟩ :=
      Walker.exists_run_ensurePlan s.walker name q.circle state.world
    obtain ⟨rfl, rfl⟩ := Prod.mk.inj (hmade.symm.trans hrun)
    rcases hfail with ⟨-, hstate⟩ | ⟨plan, last, -, hstep, hstate⟩
    · exact .inr ⟨plans, state.world.readings, ⟨token, htoken⟩, hsame, .inl hstate⟩
    · refine .inr ⟨plans, state.world.readings + 1, ⟨token, htoken⟩, hsame, ?_⟩
      cases hplan : s.walker.planOf name
          { state.world with plans := plans, readings := state.world.readings + 1 } with
      | error e =>
        rw [Walker.run_step_of_error hplan] at hstep
        obtain ⟨-, rfl⟩ := Prod.mk.inj hstep
        exact .inl hstate
      | ok plan' =>
        have hrun : s.walker.StepRun (s.circleSearch q.query q.type) plan' token 0 _ _ _ _ _ :=
          Walker.stepRun hplan token
        rw [hstep] at hrun
        exact .inr ⟨plan', token, _, last, hplan, hrun, hstate⟩

/-- A sample that fails leaves everything as it was.  So does a fetch of the full data whose token
cannot be read.  Any other fetch of the full data that fails sends no request, keeps no dataset and
starts no walk.  All pages that it read were answered from the store, under the key of the whole
query, and each of them was recorded.  If there was a plan, and no page of the query is stored,
then everything is as it was but for the readings of the clock; but if there was no plan, there is
one now. -/
theorem unchanged_of_refused (s : Service σ π ρ) (hstore : s.searcher.store.ReadsOnly)
    (state state' : ServiceState σ π ρ) (q : SearchRequest) (err : Error) :
    ((s.fetchSample q).run state = (.error err, state') → state' = state) ∧
    ∀ country city, (s.fetchFull q country city).run state = (.error err, state') →
      let name := planName q.query country city
      let stored := s.walker.plans.read name state.world.plans
      (state'.world.search = state.world.search ∧ state'.loads = state.loads ∧
        state'.lastId = state.lastId) ∧
      ((∃ e, ResumeToken.decode q.page = .error e) → state' = state) ∧
      (∃ visits changes,
        (∀ v ∈ visits, s.IsStored q.query q.type state.world.search v) ∧
        PlanChange.Tells changes visits false ∧
        state'.world.progress =
          changes.foldl (s.walker.progress.write name) state.world.progress) ∧
      ((∀ n, stored ≠ .error (.planNotFound n)) →
        (∀ geo, ((s.searcher.lookup (.ofQuery q.query q.type.name geo)).run
          state.world.search).1 = none) →
        state' = { state with
          world := { state.world with readings := state'.world.readings } }) ∧
      ((∃ n, stored = .error (.planNotFound n)) → s.walker.plans.Keeps name →
        (∃ token, ResumeToken.decode q.page = .ok token) →
        ∃ rows, s.walker.plans.read name state'.world.plans = .ok rows) := by
  refine ⟨run_fetchSample_eq_error hstore, fun country city h => ?_⟩
  intro name stored
  have hmade : (∃ n, stored = .error (.planNotFound n)) → s.walker.plans.Keeps name →
      (∃ token, ResumeToken.decode q.page = .ok token) →
      ∃ rows, s.walker.plans.read name state'.world.plans = .ok rows := by
    rintro ⟨n, hnone⟩ hkeeps ⟨token, htoken⟩
    have hrows := exists_rows_fetchFull hkeeps hnone htoken
    rwa [h] at hrows
  rcases exists_stepRun_of_run_fetchFull_eq_error h with ⟨-, rfl⟩ |
    ⟨plans, readings, ⟨token, htoken⟩, hsame, hstate⟩
  · exact ⟨⟨rfl, rfl, rfl⟩, fun _ => rfl, ⟨[], [], by simp, .stop, rfl⟩, fun _ _ => rfl, hmade⟩
  · have hdecode : (∃ e, ResumeToken.decode q.page = .error e) → state' = state := by
      rintro ⟨e, htoken'⟩
      rw [htoken] at htoken'
      cases htoken'
    rcases hstate with rfl | ⟨plan, from', visits, last, hplan, hrun, rfl⟩
    · refine ⟨⟨rfl, rfl, rfl⟩, hdecode, ⟨[], [], by simp, .stop, rfl⟩, fun hthere _ => ?_, hmade⟩
      rw [hsame hthere]
    · obtain ⟨hsearch, hvisits⟩ := hrun.isStored_of_error hstore (hrun.planCalls_of_error rfl)
      obtain ⟨changes, hchanges⟩ := hrun.exists_changes
      rw [Walker.name_of_planOf hplan] at hchanges
      refine ⟨⟨hsearch, rfl, rfl⟩, hdecode,
        ⟨visits, changes, hvisits, hchanges.tells, hchanges.progress_eq⟩,
        fun hthere hmiss => ?_, hmade⟩
      obtain rfl : visits = [] := by
        refine List.eq_nil_iff_forall_not_mem.mpr fun v hv => ?_
        obtain ⟨d, hfound, -⟩ := hvisits v hv
        rw [hmiss] at hfound
        cases hfound
      have hlast := hrun.last_of_nil
      rw [hsearch, hsame hthere] at hlast
      rw [hlast]

/-- A query that breaks off is refused in the search of the first circle.  By then its plan is
stored, though no request is sent and no progress recorded. -/
theorem unchanged_of_refused_of_open_query :
    let q : SearchRequest :=
      { query := "cafe AND", type := .categories, circle := ⟨⟨59.33, 18.06⟩, 1500.0⟩,
        page := none, keepIds := false }
    let s : Service (Table Dataset) (Table (List String)) (Table PlanState) :=
      { searcher :=
          { transport := fun _ _ => .lost "no provider", policy := {}, store := .inMemory }
        walker := { plans := .inMemory, progress := .inMemory, clock := fun n => .ofSeconds n } }
    let state : ServiceState (Table Dataset) (Table (List String)) (Table PlanState) :=
      { world := { search := { store := [] }, plans := [], progress := [] } }
    let run := (s.fetchFull q "se" "stockholm").run state
    s.searcher.store.ReadsOnly ∧ q.page = none ∧
      (∃ err, run.1 = .error err ∧ err.isCallers = true) ∧
      run.2.world.search = state.world.search ∧ run.2.world.progress = [] ∧
      ∃ rows, s.walker.plans.read "plan_cafe AND_se_stockholm" run.2.world.plans = .ok rows := by
  intro q s state run
  have hstore : s.searcher.store.ReadsOnly := DatasetStore.readsOnly_inMemory
  have hmap : run.1.map (·.progress) = .error (.query (.unexpected .operand ⟨1, 9⟩)) := by
    decide +kernel
  have hprogress : run.2.world.progress = [] := by decide +kernel
  cases hrun : run.1 with
  | ok r => simp [hrun, Except.map] at hmap
  | error err =>
    obtain rfl : err = .query (.unexpected .operand ⟨1, 9⟩) := by
      simpa [hrun, Except.map] using hmap
    have hkeeps : s.walker.plans.Keeps (planName q.query "se" "stockholm") :=
      PlanSource.keeps_inMemory _
    obtain ⟨⟨hsearch, -, -⟩, -, -, -, hmade⟩ :=
      (unchanged_of_refused s hstore state run.2 q _).2 "se" "stockholm" (Prod.ext hrun rfl)
    exact ⟨hstore, rfl, ⟨_, rfl, rfl⟩, hsearch, hprogress, hmade ⟨_, rfl⟩ hkeeps ⟨_, rfl⟩⟩

end Service

end PlaceSearch
