import PlaceSearch.Proofs.Walk.Cover
import PlaceSearch.Proofs.Walk.Itinerary

/-!
# Walks over circles with several pages

Whether a walk stays on a row, and whether the circle of the row is rectified, is decided by one
page at a time.  So of each row the pages up to the first one without features are read, and no
more; and the circles below a row are marked if this page is empty, even if a page before it was
not.
-/

namespace PlaceSearch

variable {ω π ρ : Type}

/-- All pages are read if none without features is followed by another one. -/
theorem readPages_eq_self_iff {pages : List CircleResult} : readPages pages = pages ↔
    ∀ before found later, pages = before ++ found :: later → found.dataset.isEmpty = true →
      later = [] := by
  induction pages with
  | nil => simp [readPages]
  | cons page pages ih =>
    rw [readPages]
    cases hempty : page.dataset.isEmpty with
    | true =>
      rw [if_pos rfl]
      constructor
      · intro h before found later hsplit _
        obtain rfl : pages = [] := (List.cons.inj h).2.symm
        cases before with
        | nil => exact (List.cons.inj hsplit).2.symm
        | cons b before => simp at hsplit
      · intro h
        rw [h [] page pages rfl hempty]
    | false =>
      rw [if_neg (by simp), List.cons_inj_right, ih]
      constructor
      · intro h before found later hsplit hfound
        cases before with
        | nil =>
          obtain ⟨rfl, -⟩ := List.cons.inj hsplit
          rw [hempty] at hfound
          cases hfound
        | cons b before => exact h before found later (List.cons.inj hsplit).2 hfound
      · intro h before found later hsplit hfound
        exact h (page :: before) found later (by rw [hsplit]; rfl) hfound

namespace Walker

variable {w : Walker π ρ} {search : CircleSearch ω} {plan : Plan} {name : String}
  {world : WalkWorld ω π ρ} {pages : Circle → List CircleResult}

/-- A walk over a plan whose circles have several pages completes.  Of the rows of the itinerary,
in order and once each, it reads the pages up to the first one without features, and counts what is
on these.  They are all pages of these rows exactly if none without features is followed by
another one. -/
theorem exists_completes_readPages (hkeeps : w.plans.Keeps name)
    (hmax : 0 < w.settings.maxEmptySteps) (hplan : w.planOf name world = .ok plan)
    (hpages : ∀ level c, .circle level c ∈ plan.entries →
      search.Pages (Geo.ofCircle c) (pages c)) :
    let stops := plan.itinerary (w.isSmall pages) 0
    let visits := stops.flatMap fun stop =>
      stop.visits (Geo.ofCircle stop.circle) (readPages (pages stop.circle))
    (∃ last, Completes (fun fuel => (w.walkRemaining search name {} fuel).run world)
        (visits.map (·.found.apiCalls)).sum (visits.map (·.found.dataset.size)).sum last ∧
      last.search = search.askAll (visits.map (·.geo)) world.search) ∧
    stops.Pairwise (·.row < ·.row) ∧
    (∀ stop ∈ stops, plan.entry? stop.row = some (.circle stop.level stop.circle)) ∧
    ((∀ stop ∈ stops, readPages (pages stop.circle) = pages stop.circle) ↔
      ∀ stop ∈ stops, ∀ before found later, pages stop.circle = before ++ found :: later →
        found.dataset.isEmpty = true → later = []) := by
  intro stops visits
  obtain ⟨last, htour⟩ := exists_tour (w := w) hpages 0 world
  refine ⟨⟨last, htour.completes_walkRemaining hkeeps hplan hmax, htour.search_eq⟩,
    pairwise_itinerary _ _ _ _, fun stop => Plan.entry?_of_mem_itinerary, ?_⟩
  exact forall₂_congr fun stop _ => readPages_eq_self_iff

/-- Of a page without features the next one is not read, even if there is one. -/
theorem exists_completes_readPages_of_empty_page :
    let rows := ["10.0_10.0_1000.0_circle=1", "end of search plan"]
    let place : Feature := { geometry := { lng := 10.0, lat := 10.0 }, properties := {} }
    let first : CircleResult := { nextCursor := some "c1", apiCalls := 1 }
    let second : CircleResult := { dataset := { features := [place] }, apiCalls := 1 }
    let search : CircleSearch (List Geo) := fun geo asked =>
      (.ok (if geo.page = none then first else second), asked ++ [geo])
    let w : Walker (Table (List String)) (Table PlanState) :=
      { plans := .inMemory, progress := .inMemory, clock := fun n => .ofSeconds n }
    let world : WalkWorld (List Geo) (Table (List String)) (Table PlanState) :=
      { search := [], plans := [("p", rows)], progress := [] }
    (∀ c, search.Pages (Geo.ofCircle c) [first, second]) ∧
      ∃ last, Completes (fun fuel => (w.walkRemaining search "p" {} fuel).run world) 1 0 last ∧
        last.search.map (·.page) = [none] := by
  intro rows place first second search w world
  let plan : Plan := ⟨"p", [⟨"10.0_10.0_1000.0_circle=1", .circle "1" ⟨⟨10.0, 10.0⟩, 1000.0⟩⟩,
    ⟨"end of search plan", .finish⟩]⟩
  have hplan : w.planOf "p" world = .ok plan := rfl
  have hpages : ∀ c, search.Pages (Geo.ofCircle c) [first, second] := fun c =>
    .next (fun _ => rfl) rfl (.last (fun _ => rfl) rfl)
  have hstops : plan.itinerary (w.isSmall fun _ => [first, second]) 0 =
      [⟨0, "1", ⟨⟨10.0, 10.0⟩, 1000.0⟩⟩] := rfl
  obtain ⟨⟨last, hcompletes, hsearch⟩, -⟩ := exists_completes_readPages
    (PlanSource.keeps_inMemory "p") (by decide) hplan (fun _ c _ => hpages c)
  rw [hstops] at hcompletes hsearch
  refine ⟨hpages, last, hcompletes, ?_⟩
  rw [hsearch]
  rfl

/-- If only empty circles are to be rectified, a step marks exactly the circles that lie below a row
of which it read a page without features, whatever its source keeps.  Over circles with several
pages, and with a source that keeps what is written, a walk from the beginning completes and marks
exactly the circles that lie below a row of which it read such a page.  All of these lie below a
row of which it read no page with features exactly if that holds of the circles below the rows of
which it read pages of both kinds. -/
theorem exists_completes_marks (hrule : w.settings.rectify = .whenEmpty) :
    (∀ (world : WalkWorld ω π ρ) token plan, w.planOf name world = .ok plan →
      ∀ i, i ∈ w.marks search name token world ↔
        ∃ level c, plan.entry? i = some (.circle level c) ∧
          ∃ v ∈ w.visits search name token world, v.found.dataset.isEmpty = true ∧
            PlanEntry.levelBelow level v.level = true) ∧
    ∀ (world : WalkWorld ω π ρ) plan pages, w.plans.Keeps name →
      0 < w.settings.maxEmptySteps → w.planOf name world = .ok plan →
      (∀ level c, .circle level c ∈ plan.entries → search.Pages (Geo.ofCircle c) (pages c)) →
      let stops := plan.itinerary (w.isSmall pages) 0
      let isBelowEmpty level := ∃ stop ∈ stops, PlanEntry.levelBelow level stop.level = true ∧
        ∀ found ∈ readPages (pages stop.circle), found.dataset.isEmpty = true
      ∃ apiCalls features last final,
        Completes (fun fuel => (w.walkRemaining search name {} fuel).run world) apiCalls features
          last ∧
        w.planOf name last = .ok final ∧ plan.Marks final ∧
        (∀ i level c, plan.entry? i = some (.circle level c) →
          ((∃ stop ∈ stops, PlanEntry.levelBelow level stop.level = true ∧
              ∃ found ∈ readPages (pages stop.circle), found.dataset.isEmpty = true) ↔
            final.entry? i = some (.skip level))) ∧
        ((∀ i level c, plan.entry? i = some (.circle level c) →
            final.entry? i = some (.skip level) → isBelowEmpty level) ↔
          ∀ stop ∈ stops, (∃ found ∈ readPages (pages stop.circle), found.dataset.isEmpty = true) →
            (∃ found ∈ readPages (pages stop.circle), found.dataset.isEmpty = false) →
            ∀ i level c, plan.entry? i = some (.circle level c) →
              PlanEntry.levelBelow level stop.level = true → isBelowEmpty level) := by
  have hrectifies : ∀ d : Dataset, w.settings.rectify.rectifies d.size = d.isEmpty := by
    intro d
    rw [hrule, RectifyRule.rectifies, Dataset.size, Dataset.isEmpty]
    cases d.features <;> rfl
  constructor
  · intro world token plan hplan i
    rw [mem_marks_iff hplan]
    simp only [hrectifies]
  intro world plan pages hkeeps hmax hplan hpages stops isBelowEmpty
  obtain ⟨last, htour⟩ := exists_tour (w := w) hpages 0 world
  have hsmall : ∀ c, w.isSmall pages c = true ↔
      ∃ found ∈ readPages (pages c), found.dataset.isEmpty = true := by
    intro c
    rw [isSmall, RectifyRule.rectifiesAny, List.any_eq_true]
    simp only [hrectifies]
  have hmarks : ∀ i level c, plan.entry? i = some (.circle level c) →
      ((∃ stop ∈ stops, PlanEntry.levelBelow level stop.level = true ∧
          ∃ found ∈ readPages (pages stop.circle), found.dataset.isEmpty = true) ↔
        Plan.entry? (plan.markBelow (smallLevels (w.isSmall pages) stops)) i =
          some (.skip level)) := by
    intro i level c hcircle
    rw [Plan.entry?_markBelow_eq_skip_iff hcircle]
    simp only [mem_smallLevels, hsmall]
    constructor
    · rintro ⟨stop, hstop, hbelow, hempty⟩
      exact ⟨stop.level, ⟨stop, hstop, hempty, rfl⟩, hbelow⟩
    · rintro ⟨_, ⟨stop, hstop, hempty, rfl⟩, hbelow⟩
      exact ⟨stop, hstop, hbelow, hempty⟩
  refine ⟨_, _, last, _, htour.completes_walkRemaining hkeeps hplan hmax,
    htour.planOf_last hkeeps hplan, .markBelow plan _, hmarks, ?_⟩
  constructor
  · intro hlaw stop hstop hempty _ i level c hcircle hbelow
    exact hlaw i level c hcircle ((hmarks i level c hcircle).mp ⟨stop, hstop, hbelow, hempty⟩)
  · intro hmixed i level c hcircle hmarked
    obtain ⟨stop, hstop, hbelow, hempty⟩ := (hmarks i level c hcircle).mpr hmarked
    by_cases hall : ∀ found ∈ readPages (pages stop.circle), found.dataset.isEmpty = true
    · exact ⟨stop, hstop, hbelow, hall⟩
    · have hfull : ∃ found ∈ readPages (pages stop.circle), found.dataset.isEmpty = false := by
        simpa using hall
      exact hmixed stop hstop hempty hfull i level c hcircle hbelow

/-- Of a circle whose last page has no features all that lies below is marked, though its first
page has a feature. -/
theorem exists_completes_marks_of_mixed_pages :
    let rows := ["10.0_10.0_1000.0_circle=1", "11.0_11.0_500.0_circle=1.1", "end of search plan"]
    let place : Feature := { geometry := { lng := 10.0, lat := 10.0 }, properties := {} }
    let first : CircleResult :=
      { dataset := { features := [place] }, nextCursor := some "c1", apiCalls := 1 }
    let second : CircleResult := { apiCalls := 1 }
    let search : CircleSearch Unit := fun geo state =>
      (.ok (if geo.page = none then first else second), state)
    let w : Walker (Table (List String)) (Table PlanState) :=
      { plans := .inMemory, progress := .inMemory, clock := fun n => .ofSeconds n }
    let world : WalkWorld Unit (Table (List String)) (Table PlanState) :=
      { search := (), plans := [("p", rows)], progress := [] }
    ∃ apiCalls features last final,
      Completes (fun fuel => (w.walkRemaining search "p" {} fuel).run world) apiCalls features
        last ∧
      w.planOf "p" last = .ok final ∧ final.entry? 1 = some (.skip "1.1") := by
  intro rows place first second search w world
  let plan : Plan := ⟨"p", [⟨"10.0_10.0_1000.0_circle=1", .circle "1" ⟨⟨10.0, 10.0⟩, 1000.0⟩⟩,
    ⟨"11.0_11.0_500.0_circle=1.1", .circle "1.1" ⟨⟨11.0, 11.0⟩, 500.0⟩⟩,
    ⟨"end of search plan", .finish⟩]⟩
  have hplan : w.planOf "p" world = .ok plan := rfl
  have hpages : ∀ c, search.Pages (Geo.ofCircle c) [first, second] := fun c =>
    .next (fun _ => rfl) rfl (.last (fun _ => rfl) rfl)
  have hstops : plan.itinerary (w.isSmall fun _ => [first, second]) 0 =
      [⟨0, "1", ⟨⟨10.0, 10.0⟩, 1000.0⟩⟩] := rfl
  obtain ⟨apiCalls, features, last, final, hcompletes, hfinal, -, hmarks, -⟩ :=
    (exists_completes_marks rfl).2 world plan (fun _ => [first, second])
      (PlanSource.keeps_inMemory "p") (by decide) hplan (fun _ c _ => hpages c)
  rw [hstops] at hmarks
  have hmarked : final.entry? 1 = some (.skip "1.1") := by
    refine (hmarks 1 "1.1" _ rfl).mp ⟨_, List.mem_singleton_self _, by decide, second, ?_, rfl⟩
    exact List.mem_cons_of_mem _ (List.mem_singleton_self _)
  exact ⟨apiCalls, features, last, final, hcompletes, hfinal, hmarked⟩

end Walker

end PlaceSearch
