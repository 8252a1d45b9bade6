import PlaceSearch.Proofs.Walk.Itinerary

/-!
# Walks over circles without further pages

If all a search depends on is the circle, a walk to the end of a plan searches the rows of the
plan's itinerary, and how it is cut into steps makes no difference: neither to the rows, nor to the
requests and features that are counted, nor to what is kept of the plan and its progress.
-/

namespace PlaceSearch.Walker

variable {ω π ρ : Type} {w : Walker π ρ} {search : CircleSearch ω} {plan : Plan} {name : String}
  {world : WalkWorld ω π ρ} {answer : Circle → CircleResult}

/-- The only pages of some rows. -/
theorem visitsOf_single (answer : Circle → CircleResult) (stops : List PlanStop) :
    visitsOf (fun c => [answer c]) stops = stops.map fun stop =>
      ⟨stop.row, stop.level, Geo.ofCircle stop.circle, answer stop.circle⟩ := by
  have hread : ∀ found : CircleResult, readPages [found] = [found] := by simp [readPages]
  induction stops with
  | nil => rfl
  | cons stop stops ih =>
    simp only [visitsOf, List.flatMap_cons, hread, List.map_cons] at ih ⊢
    rw [ih]
    rfl

/-- A walk from a row on, whose search depends on the circle alone and names no further pages,
searches the rows of the itinerary of the plan: those up to the end of the plan that are circles
and do not lie below one that was searched and rectified before.  Whatever number of empty circles
its steps go through, it sends the same requests, finds the same features, and leaves the same
world: the plan with the circles below the rectified ones marked, and its state completed. -/
theorem exists_completes_itinerary (hkeeps : w.plans.Keeps name)
    (hplan : w.planOf name world = .ok plan)
    (hanswer : ∀ c page state,
      ((search ((Geo.ofCircle c).atPage page)).run state).1 = .ok (answer c))
    (hcursor : ∀ c, (answer c).nextCursor = none) (start : Nat) :
    let small c := w.settings.rectify.rectifies (answer c).dataset.size
    let stops := plan.itinerary small start
    let apiCalls := (stops.map fun stop => (answer stop.circle).apiCalls).sum
    let features := (stops.map fun stop => (answer stop.circle).dataset.size).sum
    ∃ last,
      (∀ max, 0 < max → Completes (fun fuel =>
        ((w.withBudget max).walkRemaining search name (.of none start) fuel).run world)
        apiCalls features last) ∧
      last.search = search.askAll (stops.map fun stop => Geo.ofCircle stop.circle) world.search ∧
      w.planOf name last = .ok (plan.markBelow (smallLevels small stops)) ∧
      (w.progress.Keeps name → (w.progress.load name world.progress).planName = name →
        ∃ now, w.progress.get name last.progress = .ok (some (.completed name plan.size
          ((w.progress.load name world.progress).apiCalls + apiCalls) now))) := by
  intro small stops apiCalls features
  let pages : Circle → List CircleResult := fun c => [answer c]
  have hpages : ∀ level c, .circle level c ∈ plan.entries →
      search.Pages (Geo.ofCircle c) (pages c) :=
    fun level c _ => .last (hanswer c none) (hcursor c)
  have hsmall : w.isSmall pages = small := by
    funext c
    simp [isSmall, pages, small, readPages, RectifyRule.rectifiesAny]
  obtain ⟨last, htour⟩ := exists_tour (w := w) hpages start world
  rw [hsmall, visitsOf_single] at htour
  have hcalls : Visit.apiCallsOf (stops.map fun stop =>
      ⟨stop.row, stop.level, Geo.ofCircle stop.circle, answer stop.circle⟩) = apiCalls := by
    simp [Visit.apiCallsOf, apiCalls, Function.comp_def]
  have hfeatures : Visit.featuresOf (stops.map fun stop =>
      ⟨stop.row, stop.level, Geo.ofCircle stop.circle, answer stop.circle⟩) = features := by
    simp [Visit.featuresOf, features, Function.comp_def]
  refine ⟨last, fun max hmax => ?_, ?_, htour.planOf_last hkeeps hplan, ?_⟩
  · have hwalk := htour.completes_walkRemaining hkeeps hplan hmax
    rwa [hcalls, hfeatures] at hwalk
  · have hsearch := htour.search_eq
    rw [List.map_map] at hsearch
    exact hsearch
  · intro hstore hload
    obtain rfl := name_of_planOf hplan
    have hget := htour.exists_get_last hstore hload
    rwa [hcalls] at hget

/-- A walk over circles of which one is empty: what lies below it is marked and not searched, in
steps of any length. -/
theorem exists_completes_itinerary_of_nested :
    let rows := ["10.0_10.0_1000.0_circle=1", "11.0_11.0_500.0_circle=1.1",
      "12.0_12.0_500.0_circle=1.2", "13.0_13.0_250.0_circle=1.1.1", "end of search plan"]
    let place : Feature := { geometry := { lng := 10.0, lat := 10.0 }, properties := {} }
    let answer : Circle → CircleResult := fun c =>
      { dataset := { features := if c.center.lat == 11.0 then [] else [place] }, apiCalls := 1 }
    let search : CircleSearch (List Geo) := fun geo asked =>
      (.ok (answer geo.circle), asked ++ [geo])
    let w : Walker (Table (List String)) (Table PlanState) :=
      { plans := .inMemory, progress := .inMemory, clock := fun n => .ofSeconds n }
    let world : WalkWorld (List Geo) (Table (List String)) (Table PlanState) :=
      { search := [], plans := [("p", rows)], progress := [] }
    ∃ last now,
      (∀ max, 0 < max → Completes (fun fuel =>
        ((w.withBudget max).walkRemaining search "p" (.of none 0) fuel).run world) 3 2 last) ∧
      last.search.map (·.circle.center.lat) = [10.0, 11.0, 12.0] ∧
      w.plans.read "p" last.plans = .ok ["10.0_10.0_1000.0_circle=1",
        "11.0_11.0_500.0_circle=1.1", "12.0_12.0_500.0_circle=1.2",
        "13.0_13.0_250.0_circle=1.1.1_skip", "end of search plan"] ∧
      w.progress.get "p" last.progress = .ok (some (.completed "p" 5 3 now)) := by
  intro rows place answer search w world
  let plan : Plan := ⟨"p", [⟨"10.0_10.0_1000.0_circle=1", .circle "1" ⟨⟨10.0, 10.0⟩, 1000.0⟩⟩,
    ⟨"11.0_11.0_500.0_circle=1.1", .circle "1.1" ⟨⟨11.0, 11.0⟩, 500.0⟩⟩,
    ⟨"12.0_12.0_500.0_circle=1.2", .circle "1.2" ⟨⟨12.0, 12.0⟩, 500.0⟩⟩,
    ⟨"13.0_13.0_250.0_circle=1.1.1", .circle "1.1.1" ⟨⟨13.0, 13.0⟩, 250.0⟩⟩,
    ⟨"end of search plan", .finish⟩]⟩
  have hplan : w.planOf "p" world = .ok plan := rfl
  have hanswer : ∀ c page state,
      ((search ((Geo.ofCircle c).atPage page)).run state).1 = .ok (answer c) := fun _ _ _ => rfl
  have hcursor : ∀ c, (answer c).nextCursor = none := fun _ => rfl
  have hstops : plan.itinerary (fun c => w.settings.rectify.rectifies (answer c).dataset.size) 0 =
      [⟨0, "1", ⟨⟨10.0, 10.0⟩, 1000.0⟩⟩, ⟨1, "1.1", ⟨⟨11.0, 11.0⟩, 500.0⟩⟩,
        ⟨2, "1.2", ⟨⟨12.0, 12.0⟩, 500.0⟩⟩] := rfl
  obtain ⟨last, hcompletes, hsearch, hlast, hstate⟩ :=
    exists_completes_itinerary (PlanSource.keeps_inMemory "p") hplan hanswer hcursor 0
  obtain ⟨now, hget⟩ := hstate (ProgressStore.keeps_inMemory "p") rfl
  rw [hstops] at hcompletes hsearch hlast hget
  refine ⟨last, now, hcompletes, ?_, (planOf_eq_ok_iff.mp hlast).1, hget⟩
  rw [hsearch]
  rfl

end PlaceSearch.Walker
