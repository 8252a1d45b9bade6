import PlaceSearch.Proofs.Plan.Name
import PlaceSearch.Proofs.Service.Events
import PlaceSearch.Proofs.Walk.Apart

/-!
# Plans of different requests

Fetches of the full data of a city and walks over its plan write the rows and the state of this plan
only.  All of it is found by the name of the plan.  So what is done for one request leaves the plan
of another one as it was exactly if the two plans have different names, and they may have the same
name though the requests differ.
-/

namespace PlaceSearch

variable {σ π ρ : Type}

/-- An event that is done for a request: a fetch with its texts, or a step of a background walk over
its plan. -/
def ServiceEvent.IsOf (r : PlanRequest) (state : ServiceState σ π ρ) : ServiceEvent → Prop
  | .fetch q country city => r = ⟨q.query, country, city⟩
  | .advance place => ∀ l, state.loads[place]? = some l → l.plan = r.name
  | .drop _ => True

namespace Service

/-- All events of a history are done for a request. -/
def AreOf (s : Service σ π ρ) (r : PlanRequest) (state : ServiceState σ π ρ)
    (events : List ServiceEvent) : Prop :=
  ∀ before e later, events = before ++ e :: later → e.IsOf r (s.after state before)

variable {s : Service σ π ρ} {r : PlanRequest} {other : String} {state : ServiceState σ π ρ}
  {events : List ServiceEvent} {e : ServiceEvent} {t : StepTaken σ π ρ}

theorem AreOf.of_concat (h : s.AreOf r state (events ++ [e])) :
    s.AreOf r state events ∧ e.IsOf r (s.after state events) := by
  refine ⟨fun before e' later hevents => h before e' (later ++ [e]) ?_, h events e [] rfl⟩
  rw [hevents, List.append_assoc, List.cons_append]

/-- The step that is taken for a request walks over its plan, in a world in which other plans are as
they were. -/
theorem leavesPlan_stepOf (hplans : s.walker.plans.Separates r.name other) (hof : e.IsOf r state)
    (h : s.stepOf state e = some t) :
    t.plan = r.name ∧ s.walker.LeavesPlan other state.world t.world ∧
      t.world.progress = state.world.progress := by
  cases e with
  | fetch q country city =>
    obtain rfl := hof
    obtain ⟨token, plan, world, -, hensure, rfl⟩ := exists_of_stepOf_fetch h
    have hleaves := Walker.leavesPlan_ensurePlan hplans q.circle state.world
    rw [PlanRequest.name, hensure] at hleaves
    exact ⟨rfl, ⟨hleaves.1.rows_eq, hleaves.1.state_eq⟩, hleaves.2⟩
  | advance place =>
    obtain ⟨l, hload, rfl⟩ := Option.map_eq_some_iff.mp h
    exact ⟨hof l hload, .refl _, rfl⟩
  | drop => cases h

/-- An event that is done for a request leaves other plans as they were. -/
theorem leavesPlan_handle (hplans : s.walker.plans.Separates r.name other)
    (hprogress : s.walker.progress.Separates r.name other) (hof : e.IsOf r state)
    (hnamed : s.walker.progress.IsNamed r.name state.world.progress) :
    let state' := ((s.handle e).run state).2
    s.walker.LeavesPlan other state.world state'.world ∧
      s.walker.progress.IsNamed r.name state'.world.progress := by
  cases ht : s.stepOf state e with
  | none =>
    obtain ⟨state', hrun, -, hworld⟩ := exists_run_handle_of_stepOf_eq_none ht
    rw [hrun]
    rcases hworld with hworld | ⟨q, country, city, err, rfl, hensure⟩
    · simp only [hworld]
      exact ⟨.refl _, hnamed⟩
    · obtain rfl := hof
      have hleaves := Walker.leavesPlan_ensurePlan hplans q.circle state.world
      rw [PlanRequest.name, hensure] at hleaves
      obtain ⟨hleaves, hsame⟩ := hleaves
      exact ⟨hleaves, hsame ▸ hnamed⟩
  | some t =>
    obtain ⟨hname, hleaves, hsame⟩ := leavesPlan_stepOf hplans hof ht
    obtain ⟨hstep, hnamed'⟩ := Walker.leavesPlan_step hplans hprogress t.search t.token
      (hsame.symm ▸ hnamed : s.walker.progress.IsNamed r.name t.world.progress)
    cases hrun : (s.walker.step t.search t.plan t.token).run t.world with
    | mk result last =>
      obtain ⟨told, state', hhandle, hworld, -⟩ := exists_run_handle ht hrun
      rw [hname] at hrun
      rw [hrun] at hstep hnamed'
      rw [hhandle]
      simp only [hworld]
      exact ⟨hleaves.trans hstep, hnamed'⟩

/-- A history of events that are done for a request leaves other plans as they were.  The induction
is on the history. -/
theorem leavesPlan_after (hplans : s.walker.plans.Separates r.name other)
    (hprogress : s.walker.progress.Separates r.name other) (hof : s.AreOf r state events)
    (hnamed : s.walker.progress.IsNamed r.name state.world.progress) :
    s.walker.LeavesPlan other state.world (s.after state events).world ∧
      s.walker.progress.IsNamed r.name (s.after state events).world.progress := by
  induction events using List.reverseRecOn with
  | nil => exact ⟨.refl _, hnamed⟩
  | append_singleton events e ih =>
    obtain ⟨hbefore, hlast⟩ := hof.of_concat
    obtain ⟨hleaves, hnamed'⟩ := ih hbefore
    obtain ⟨hleaves', hnamed''⟩ := leavesPlan_handle hplans hprogress hlast hnamed'
    rw [after_concat]
    exact ⟨hleaves.trans hleaves', hnamed''⟩

/-- Whatever is done for one request leaves the plan of another one as it was exactly if their plans
have different names.  A request shares the name of its plan with another one exactly if one of its
texts holds an underscore; requests whose countries and cities hold none have different names if
they differ. -/
theorem leavesPlan_after_iff (s : Service σ π ρ) (r r' : PlanRequest)
    (hplans : r.name ≠ r'.name → s.walker.plans.Separates r.name r'.name)
    (hprogress : r.name ≠ r'.name → s.walker.progress.Separates r.name r'.name)
    (hkeeps : s.walker.plans.Keeps r.name) (start : ServiceState σ π ρ)
    (hstart : s.walker.progress.IsNamed r.name start.world.progress)
    (hnone : ∃ n, s.walker.plans.read r.name start.world.plans = .error (.planNotFound n)) :
    ((∀ state events, s.walker.progress.IsNamed r.name state.world.progress →
        s.AreOf r state events →
        s.walker.LeavesPlan r'.name state.world (s.after state events).world) ↔
      r.name ≠ r'.name) ∧
    ((∃ other, other ≠ r ∧ other.name = r.name) ↔
      '_' ∈ r.query.toList ∨ '_' ∈ r.country.toList ∨ '_' ∈ r.city.toList) ∧
    ('_' ∉ r.country.toList → '_' ∉ r.city.toList → '_' ∉ r'.country.toList →
      '_' ∉ r'.city.toList → r ≠ r' → r.name ≠ r'.name) := by
  refine ⟨⟨fun hlaw hname => ?_, fun hname state events hnamed hof => ?_⟩,
    PlanRequest.exists_ne_name_eq_iff, fun hcountry hcity hcountry' hcity' hne hname =>
      hne (PlanRequest.eq_of_name_eq hcountry hcity hcountry' hcity' hname)⟩
  · -- The first fetch for the one request stores the plan of the other one.
    obtain ⟨n, hnone⟩ := hnone
    let q : SearchRequest :=
      { query := r.query, type := .both, circle := ⟨⟨0, 0⟩, 0⟩, page := none, keepIds := false }
    have hof : s.AreOf r start [.fetch q r.country r.city] := by
      intro before e later hevents
      cases before with
      | nil =>
        obtain ⟨rfl, -⟩ := List.cons.inj hevents
        rfl
      | cons e' before => simp at hevents
    have htoken : ResumeToken.decode q.page = .ok {} := rfl
    have hkeeps' : s.walker.plans.Keeps (planName q.query r.country r.city) := hkeeps
    have hnone' : s.walker.plans.read (planName q.query r.country r.city) start.world.plans =
        .error (.planNotFound n) := hnone
    obtain ⟨rows, hstored⟩ := exists_rows_fetchFull hkeeps' hnone' htoken
    have hafter : s.after start [.fetch q r.country r.city] =
        ((s.fetchFull q r.country r.city).run start).2 := by
      cases hrun : (s.fetchFull q r.country r.city).run start with
      | mk fetched state =>
        rw [← List.nil_append [_], after_concat, handle]
        exact congrArg Prod.snd (Walker.run_bind_eq hrun)
    have hrows := (hlaw start _ hstart hof).rows_eq
    rw [← hname, hnone, hafter, PlanRequest.name, hstored] at hrows
    cases hrows
  · exact (leavesPlan_after (hplans hname) (hprogress hname) hof hnamed).1

/-- Coffee shops in Boston share their plan with the coffee of another country, and leave that of
the coffee in Boston alone. -/
theorem leavesPlan_after_iff_of_coffee_shops :
    let r : PlanRequest := ⟨"coffee_shop", "us", "boston"⟩
    let foreign : PlanRequest := ⟨"coffee", "shop_us", "boston"⟩
    let plain : PlanRequest := ⟨"coffee", "us", "boston"⟩
    let s : Service (Table Dataset) (Table (List String)) (Table PlanState) :=
      { searcher :=
          { transport := fun _ _ => .lost "no provider", policy := {}, store := .inMemory }
        walker := { plans := .inMemory, progress := .inMemory, clock := fun n => .ofSeconds n } }
    let start : ServiceState (Table Dataset) (Table (List String)) (Table PlanState) :=
      { world := { search := { store := [] }, plans := [], progress := [] } }
    s.walker.plans.Keeps r.name ∧ s.walker.progress.IsNamed r.name start.world.progress ∧
      foreign ≠ r ∧ foreign.name = r.name ∧
      (¬ ∀ state events, s.walker.progress.IsNamed r.name state.world.progress →
        s.AreOf r state events →
        s.walker.LeavesPlan foreign.name state.world (s.after state events).world) ∧
      ∀ state events, s.walker.progress.IsNamed r.name state.world.progress →
        s.AreOf r state events →
        s.walker.LeavesPlan plain.name state.world (s.after state events).world := by
  intro r foreign plain s start
  have hkeeps : s.walker.plans.Keeps r.name := PlanSource.keeps_inMemory _
  have hstart : s.walker.progress.IsNamed r.name start.world.progress := by rintro _ ⟨⟩
  have hshared : foreign.name = r.name := by decide
  have hapart : r.name ≠ plain.name := by decide
  have hlaw := fun r' => leavesPlan_after_iff s r r' PlanSource.separates_inMemory
    ProgressStore.separates_inMemory hkeeps start hstart ⟨_, rfl⟩
  exact ⟨hkeeps, hstart, by decide, hshared,
    fun h => (hlaw foreign).1.mp h hshared.symm, (hlaw plain).1.mpr hapart⟩

end Service

end PlaceSearch
