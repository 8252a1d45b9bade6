import Mathlib.Algebra.GroupWithZero.Nat
import PlaceSearch.Proofs.Walk.Step

/-!
# Walks as tours

A tour of a plan reads one page after the other until the plan ends, without being cut into steps.
A walk to the end of the plan does what the tour does, whatever number of empty pages its steps go
through: a step that gives up is resumed where it stopped, with the plan as it was written.

## Main definitions

* `Visit.apiCallsOf`, `Visit.featuresOf` — the requests and features of some pages.
* `CircleSearch.askAll search geos state` — the state of a search after it was asked for some
  pages, one after the other.
* `Walker.Tour` — the pages that are read from a token on, and what is left in the end.
* `Walker.withBudget w budget` — the walker with another number of empty pages for a step.
-/

namespace PlaceSearch

/-- The requests sent for some pages. -/
def Visit.apiCallsOf (visits : List Visit) : Nat :=
  (visits.map (·.found.apiCalls)).sum

/-- The number of features on some pages. -/
def Visit.featuresOf (visits : List Visit) : Nat :=
  (visits.map (·.found.dataset.size)).sum

@[simp] theorem Visit.apiCallsOf_nil : apiCallsOf [] = 0 := rfl

@[simp] theorem Visit.featuresOf_nil : featuresOf [] = 0 := rfl

@[simp] theorem Visit.apiCallsOf_cons (v : Visit) (visits : List Visit) :
    apiCallsOf (v :: visits) = v.found.apiCalls + apiCallsOf visits := by
  simp [apiCallsOf]

@[simp] theorem Visit.featuresOf_cons (v : Visit) (visits : List Visit) :
    featuresOf (v :: visits) = v.found.dataset.size + featuresOf visits := by
  simp [featuresOf]

theorem Dataset.size_eq_zero {d : Dataset} (h : d.isEmpty = true) : d.size = 0 := by
  rw [isEmpty, List.isEmpty_iff] at h
  rw [size, h, List.length_nil]

/-- The state of a search after it was asked for some pages, one after the other. -/
def CircleSearch.askAll {ω : Type} (search : CircleSearch ω) (geos : List Geo) (state : ω) : ω :=
  geos.foldl (fun state geo => ((search geo).run state).2) state

/-- The state of a plan that was completed. -/
def PlanState.completed (name : String) (size apiCalls : Nat) (now : Time) : PlanState where
  planName := name
  currentIndex := size
  progress := 100
  lastUpdated := some now
  completedAt := some now
  apiCalls := apiCalls

namespace Walker

variable {ω π ρ : Type}

/-- The walker whose steps go through another number of empty pages. -/
def withBudget (w : Walker π ρ) (budget : Nat) : Walker π ρ :=
  { w with settings := { w.settings with maxEmptySteps := budget } }

/-- A tour of a plan from a token on: the pages it reads, and the plan and the world in the end. -/
inductive Tour (w : Walker π ρ) (search : CircleSearch ω) : Plan → ResumeToken →
    WalkWorld ω π ρ → List Visit → Plan → WalkWorld ω π ρ → Prop where
  | finished {plan token world} (hend : plan.nextCircle token.row = none) :
      Tour w search plan token world [] plan (w.worldAtEnd plan world)
  | visit {plan token world v visits final last}
      (hfinds : search.Finds plan token world.search v)
      (hrest : Tour w search (w.planAfter plan v) v.next (w.worldAfter search plan v world) visits
        final last) :
      Tour w search plan token world (v :: visits) final last

/-- How a walk goes on after a step. -/
def goOn (w : Walker π ρ) (search : CircleSearch ω) (name : String)
    (steps apiCalls features fuel : Nat) : Except Error WalkStep × WalkWorld ω π ρ →
    Option (Except Error WalkOutcome) × WalkWorld ω π ρ
  | (.error e, world) => (some (.error e), world)
  | (.ok s, world) =>
    if s.exhausted then
      (some (.ok (.completed (steps + 1) (apiCalls + s.apiCalls) (features + s.dataset.size))),
        world)
    else
      (w.walkFrom search name s.token (steps + 1) (apiCalls + s.apiCalls)
        (features + s.dataset.size) fuel).run world

/-- Given enough steps, a walk completes after so many requests, with so many features, and leaves
this world. -/
def Completes (walk : Nat → Option (Except Error WalkOutcome) × WalkWorld ω π ρ)
    (apiCalls features : Nat) (last : WalkWorld ω π ρ) : Prop :=
  ∃ n steps, ∀ fuel, n ≤ fuel →
    walk fuel = (some (.ok (.completed steps apiCalls features)), last)

variable {w : Walker π ρ} {search : CircleSearch ω} {plan final : Plan} {token : ResumeToken}
  {world last : WalkWorld ω π ρ} {visits : List Visit} {name : String}

theorem run_walkFrom_succ (w : Walker π ρ) (search : CircleSearch ω) (name : String)
    (token : ResumeToken) (steps apiCalls features fuel : Nat) (world : WalkWorld ω π ρ) :
    (w.walkFrom search name token steps apiCalls features (fuel + 1)).run world =
      w.goOn search name steps apiCalls features fuel ((w.step search name token).run world) := by
  cases hstep : (w.step search name token).run world with
  | mk result after =>
    rw [walkFrom, run_bind_eq hstep]
    cases result with
    | error e => rfl
    | ok s =>
      simp only [goOn]
      split <;> rfl

/-- A walk that goes on from a token completes if it does so with the plan at hand. -/
theorem Completes.walkFrom (hplan : w.planOf name world = .ok plan)
    {steps apiCalls features apiCalls' features' : Nat}
    (h : Completes (fun fuel => w.goOn search name steps apiCalls features fuel
      ((w.stepFrom search plan token.row token.cursor 0 w.settings.maxEmptySteps).run world))
      apiCalls' features' last) :
    Completes (fun fuel =>
      (w.walkFrom search name token steps apiCalls features fuel).run world)
      apiCalls' features' last := by
  obtain ⟨n, steps', h⟩ := h
  refine ⟨n + 1, steps', fun fuel hfuel => ?_⟩
  obtain ⟨m, rfl⟩ : ∃ m, fuel = m + 1 := ⟨fuel - 1, by omega⟩
  simp only [run_walkFrom_succ, run_step hplan]
  exact h m (by omega)

namespace Tour

/-- A walk in the middle of a step completes where the tour ends, with any budget that is left. -/
theorem completes_goOn (h : w.Tour search plan token world visits final last)
    (hkeeps : w.plans.Keeps name) (hplan : w.planOf name world = .ok plan) {max : Nat}
    (hmax : 0 < max) {budget : Nat} (hbudget : 0 < budget) (steps total features apiCalls : Nat) :
    Completes (fun fuel => (w.withBudget max).goOn search name steps total features fuel
      (((w.withBudget max).stepFrom search plan token.row token.cursor apiCalls budget).run world))
      (total + (apiCalls + Visit.apiCallsOf visits)) (features + Visit.featuresOf visits) last := by
  induction h generalizing budget steps total features apiCalls with
  | finished hend =>
    obtain ⟨budget, rfl⟩ : ∃ b, budget = b + 1 := ⟨budget - 1, by omega⟩
    refine ⟨0, steps + 1, fun fuel _ => ?_⟩
    simp only [run_stepFrom_finished hend]
    rfl
  | @visit plan token world v visits final last hfinds hrest ih =>
    obtain ⟨budget, rfl⟩ : ∃ b, budget = b + 1 := ⟨budget - 1, by omega⟩
    have hplan' : w.planOf name (w.worldAfter search plan v world) = .ok (w.planAfter plan v) :=
      planOf_worldAfter hkeeps hplan
    -- Where the step ends, the next one reads the plan again and goes on as if it had not ended.
    have hresume : ∀ steps total features, Completes (fun fuel =>
        ((w.withBudget max).walkFrom search name v.next steps total features fuel).run
          (w.worldAfter search plan v world))
        (total + Visit.apiCallsOf visits) (features + Visit.featuresOf visits) last := by
      intro steps total features
      have h := ih hplan' hmax steps total features 0
      rw [Nat.zero_add] at h
      exact Completes.walkFrom (w := w.withBudget max) hplan' h
    simp only [run_stepFrom_found hfinds, Visit.apiCallsOf_cons, Visit.featuresOf_cons]
    cases hempty : v.found.dataset.isEmpty with
    | true =>
      have hnext : v.next = .of none (v.row + 1) := if_pos hempty
      rw [Dataset.size_eq_zero hempty, Nat.zero_add, ← Nat.add_assoc apiCalls]
      cases budget with
      | zero =>
        rw [hnext] at hresume
        have h := hresume (steps + 1) (total + (apiCalls + v.found.apiCalls)) features
        rw [Nat.add_assoc] at h
        exact h
      | succ budget =>
        have h := ih hplan' (Nat.succ_pos budget) steps total features
          (apiCalls + v.found.apiCalls)
        rw [hnext] at h
        exact h
    | false =>
      have hnext : v.next = v.token := if_neg (by simp [hempty])
      rw [hnext] at hresume
      have h := hresume (steps + 1) (total + (apiCalls + v.found.apiCalls))
        (features + v.found.dataset.size)
      simp only [Nat.add_assoc] at h ⊢
      exact h

/-- A walk of any steps completes where the tour ends. -/
theorem completes_walkRemaining (h : w.Tour search plan token world visits final last)
    (hkeeps : w.plans.Keeps name) (hplan : w.planOf name world = .ok plan) {max : Nat}
    (hmax : 0 < max) :
    Completes (fun fuel => ((w.withBudget max).walkRemaining search name token fuel).run world)
      (Visit.apiCallsOf visits) (Visit.featuresOf visits) last := by
  have h' := h.completes_goOn hkeeps hplan hmax hmax 0 0 0 0
  simp only [Nat.zero_add] at h'
  exact Completes.walkFrom (w := w.withBudget max) hplan h'

/-- The search was asked for the pages of the tour, in order and once each. -/
theorem search_eq (h : w.Tour search plan token world visits final last) :
    last.search = search.askAll (visits.map (·.geo)) world.search := by
  induction h with
  | finished => rfl
  | visit _ _ ih => exact ih

/-- The source has the plan in which all circles were marked. -/
theorem planOf_last (h : w.Tour search plan token world visits final last)
    (hkeeps : w.plans.Keeps name) (hplan : w.planOf name world = .ok plan) :
    w.planOf name last = .ok final := by
  induction h with
  | finished => exact hplan
  | visit _ _ ih => exact ih (planOf_worldAfter hkeeps hplan)

/-- The state of the plan in the end: it is completed, and all requests were counted. -/
theorem exists_get_last (h : w.Tour search plan token world visits final last)
    (hkeeps : w.progress.Keeps plan.name)
    (hname : (w.progress.load plan.name world.progress).planName = plan.name) :
    ∃ now, w.progress.get plan.name last.progress = .ok (some (.completed plan.name plan.size
      ((w.progress.load plan.name world.progress).apiCalls + Visit.apiCallsOf visits) now)) := by
  induction h with
  | @finished plan _ world _ =>
    refine ⟨w.clock world.readings, ?_⟩
    rw [worldAtEnd, ProgressStore.get_update hkeeps _ hname]
    simp [PlanState.completed, PlanState.afterCompletion, hname]
  | @visit plan token world v visits final last hfinds hrest ih =>
    simp only [name_planAfter, size_planAfter] at ih
    have hload : w.progress.load plan.name (w.worldAfter search plan v world).progress =
        (w.progress.load plan.name world.progress).afterPage v.token
          (plan.progressAt v.token.row) v.found.apiCalls (w.clock world.readings) :=
      ProgressStore.load_update hkeeps (·.afterPage v.token (plan.progressAt v.token.row)
        v.found.apiCalls (w.clock world.readings)) hname
    obtain ⟨now, hget⟩ := ih hkeeps (by rw [hload]; exact hname)
    rw [hload] at hget
    refine ⟨now, ?_⟩
    rw [Visit.apiCallsOf_cons, ← Nat.add_assoc]
    exact hget

/-- A tour goes through the rows alike from two tokens with the same next circle and cursor. -/
theorem of_nextCircle_eq {token' : ResumeToken}
    (h : w.Tour search plan token world visits final last)
    (hnext : plan.nextCircle token'.row = plan.nextCircle token.row)
    (hcursor : token'.cursor = token.cursor) :
    w.Tour search plan token' world visits final last := by
  cases h with
  | finished hend => exact .finished (hnext.trans hend)
  | visit hfinds hrest =>
    refine .visit ⟨hnext.trans hfinds.circle, ?_, hfinds.answer⟩ hrest
    rw [hcursor]
    exact hfinds.geo

end Tour

end Walker

end PlaceSearch
