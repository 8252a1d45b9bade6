import PlaceSearch.Proofs.Walk.Tour

/-!
# Which rows a walk searches

The rows that a walk searches can be told from the plan and from what the search finds in its
circles: going through the rows in order up to the end of the plan, every circle that does not lie
below one that was searched and rectified before.  Of each of these rows the pages are read up to
the first one without features.
-/

namespace PlaceSearch

variable {ω π ρ : Type}

/-- The search answers with some pages, one after the other: each but the last names the cursor at
which it answers with the next one. -/
inductive CircleSearch.Pages (search : CircleSearch ω) : Geo → List CircleResult → Prop where
  | last {geo found} (hanswer : ∀ state, ((search geo).run state).1 = .ok found)
      (hlast : found.nextCursor = none) : Pages search geo [found]
  | next {geo found cursor pages} (hanswer : ∀ state, ((search geo).run state).1 = .ok found)
      (hnext : found.nextCursor = some cursor)
      (hrest : Pages search ((Geo.ofCircle geo.circle).atPage (some cursor)) pages) :
      Pages search geo (found :: pages)

/-- The pages that a walk reads of a row: all up to the first one without features. -/
def readPages : List CircleResult → List CircleResult
  | [] => []
  | found :: pages => if found.dataset.isEmpty then [found] else found :: readPages pages

/-- Whether some page has so few features that its circle is rectified. -/
def RectifyRule.rectifiesAny (rule : RectifyRule) (pages : List CircleResult) : Bool :=
  pages.any fun found => rule.rectifies found.dataset.size

/-- A row of a plan that is searched. -/
structure PlanStop where
  row : Nat
  level : String
  circle : Circle

/-- The pages of a row that are read from a request on. -/
def PlanStop.visits (stop : PlanStop) : Geo → List CircleResult → List Visit
  | _, [] => []
  | geo, found :: pages =>
    ⟨stop.row, stop.level, geo, found⟩ ::
      stop.visits ((Geo.ofCircle geo.circle).atPage found.nextCursor) pages

/-- The rows that are searched, of entries that begin at some row, when the circles below some
levels are passed over; those below a small circle are passed over once it was searched. -/
def itinerary (small : Circle → Bool) (row : Nat) (passed : List String) :
    List PlanEntry → List PlanStop
  | [] => []
  | .finish :: _ => []
  | .skip _ :: es => itinerary small (row + 1) passed es
  | .circle level c :: es =>
    if passed.any (PlanEntry.levelBelow level) then itinerary small (row + 1) passed es
    else
      let passed := if small c then passed ++ [level] else passed
      ⟨row, level, c⟩ :: itinerary small (row + 1) passed es

/-- The rows of a plan that are searched from a row on. -/
def Plan.itinerary (p : Plan) (small : Circle → Bool) (start : Nat) : List PlanStop :=
  PlaceSearch.itinerary small start [] (p.entries.drop start)

/-- The levels of the rows whose circles are small. -/
def smallLevels (small : Circle → Bool) (stops : List PlanStop) : List String :=
  (stops.filter (small ·.circle)).map (·.level)

variable {small : Circle → Bool} {row start : Nat} {passed : List String} {es : List PlanEntry}
  {stop : PlanStop}

theorem smallLevels_cons (small : Circle → Bool) (stop : PlanStop) (stops : List PlanStop) :
    smallLevels small (stop :: stops) =
      if small stop.circle then stop.level :: smallLevels small stops
      else smallLevels small stops := by
  rw [smallLevels, List.filter_cons]
  split <;> rfl

theorem mem_smallLevels {level : String} {stops : List PlanStop} :
    level ∈ smallLevels small stops ↔
      ∃ stop ∈ stops, small stop.circle = true ∧ stop.level = level := by
  simp [smallLevels, and_assoc]

/-! ## The rows of an itinerary -/

theorem le_row_of_mem_itinerary (h : stop ∈ itinerary small row passed es) : row ≤ stop.row := by
  induction es generalizing row passed with
  | nil => cases h
  | cons e es ih =>
    cases e with
    | finish => cases h
    | skip => exact Nat.le_of_succ_le (ih h)
    | circle level c =>
      rw [itinerary] at h
      split at h
      · exact Nat.le_of_succ_le (ih h)
      · rcases List.mem_cons.mp h with rfl | h
        · exact Nat.le_refl _
        · exact Nat.le_of_succ_le (ih h)

/-- The rows of an itinerary are in order, each at most once. -/
theorem pairwise_itinerary (small : Circle → Bool) (row : Nat) (passed : List String)
    (es : List PlanEntry) : (itinerary small row passed es).Pairwise (·.row < ·.row) := by
  induction es generalizing row passed with
  | nil => exact .nil
  | cons e es ih =>
    cases e with
    | finish => exact .nil
    | skip => exact ih _ _
    | circle level c =>
      rw [itinerary]
      split
      · exact ih _ _
      · exact .cons (fun stop h => le_row_of_mem_itinerary h) (ih _ _)

theorem getElem?_of_mem_itinerary (h : stop ∈ itinerary small row passed es) :
    es[stop.row - row]? = some (.circle stop.level stop.circle) := by
  induction es generalizing row passed with
  | nil => cases h
  | cons e es ih =>
    have hlater : ∀ {passed}, stop ∈ itinerary small (row + 1) passed es →
        (e :: es)[stop.row - row]? = some (.circle stop.level stop.circle) := by
      intro passed h
      have hle := le_row_of_mem_itinerary h
      have hsub : stop.row - row = (stop.row - (row + 1)) + 1 := by omega
      rw [hsub]
      exact ih h
    cases e with
    | finish => cases h
    | skip => exact hlater h
    | circle level c =>
      rw [itinerary] at h
      split at h
      · exact hlater h
      · rcases List.mem_cons.mp h with rfl | h
        · simp
        · exact hlater h

/-- The rows of an itinerary are circles of the plan. -/
theorem Plan.entry?_of_mem_itinerary {p : Plan} (h : stop ∈ p.itinerary small start) :
    p.entry? stop.row = some (.circle stop.level stop.circle) := by
  have hrow := getElem?_of_mem_itinerary h
  rw [getElem?_drop_entries, Nat.add_sub_cancel' (le_row_of_mem_itinerary h)] at hrow
  exact hrow

/-! ## The tour of a plan -/

namespace Walker

variable {w : Walker π ρ} {search : CircleSearch ω} {plan final : Plan} {token : ResumeToken}
  {visits : List Visit} {pages : List CircleResult} {geo : Geo}

/-- The plan at hand after some pages of a row of a level. -/
def planAfterPages (w : Walker π ρ) (plan : Plan) (level : String) (pages : List CircleResult) :
    Plan :=
  if w.settings.rectify.rectifiesAny pages then plan.skipBelow level else plan

theorem planAfterPages_cons (plan : Plan) (v : Visit) (pages : List CircleResult) :
    w.planAfterPages plan v.level (v.found :: pages) =
      w.planAfterPages (w.planAfter plan v) v.level pages := by
  have htwice : (plan.skipBelow v.level).skipBelow v.level = plan.skipBelow v.level := by
    rw [Plan.skipBelow_eq plan, Plan.skipBelow_markBelow]
    simp [Plan.markBelow]
  simp only [planAfterPages, planAfter, RectifyRule.rectifiesAny, List.any_cons]
  by_cases h : w.settings.rectify.rectifies v.found.dataset.size <;> simp [h, htwice]

/-- A page of a circle does not mark the circle itself. -/
theorem nextCircle_planAfter {v : Visit} {circle : Circle}
    (h : plan.nextCircle token.row = some (v.row, v.level, circle)) :
    (w.planAfter plan v).nextCircle v.row = some (v.row, v.level, circle) := by
  obtain ⟨-, hcircle, -⟩ := Plan.nextCircle_eq_some h
  refine Plan.nextCircle_of_entry? ?_
  rw [planAfter]
  split
  · rw [Plan.skipBelow_eq, Plan.entry?_markBelow hcircle]
    simp [PlanEntry.markBelow]
  · exact hcircle

/-- The cursor of a token asks for the same page as the cursor it was made of. -/
theorem atPage_cursor_of (g : Geo) (cursor : Option String) (row : Nat) :
    g.atPage (ResumeToken.of cursor row).cursor = g.atPage cursor := by
  simp only [Geo.atPage, ResumeToken.of, Option.filter_filter, Bool.and_self]

/-- A tour reads the pages of a row up to the first one without features, and goes on with the
next row.  The induction is on the pages. -/
theorem exists_tour_of_pages (stop : PlanStop) (hpages : search.Pages geo pages)
    (hnext : plan.nextCircle token.row = some (stop.row, stop.level, stop.circle))
    (hgeo : geo = (Geo.ofCircle stop.circle).atPage token.cursor)
    (hrest : ∀ world : WalkWorld ω π ρ, ∃ last, w.Tour search
      (w.planAfterPages plan stop.level (readPages pages)) (.of none (stop.row + 1)) world visits
      final last)
    (world : WalkWorld ω π ρ) :
    ∃ last, w.Tour search plan token world (stop.visits geo (readPages pages) ++ visits) final
      last := by
  induction hpages generalizing plan token world with
  | @last geo found hanswer hlast =>
    let v : Visit := ⟨stop.row, stop.level, geo, found⟩
    have hfinds : search.Finds plan token world.search v := by
      subst hgeo
      exact ⟨hnext, rfl, hanswer _⟩
    have hread : readPages [found] = [found] := by simp [readPages]
    have hv : v.next = .of none (stop.row + 1) := by
      rw [Visit.next, Visit.token, hlast]
      exact ite_self _
    obtain ⟨last, htour⟩ := hrest (w.worldAfter search plan v world)
    rw [hread] at htour ⊢
    have hplan : w.planAfterPages plan stop.level [found] = w.planAfter plan v :=
      planAfterPages_cons plan v []
    rw [hplan, ← hv] at htour
    exact ⟨last, .visit hfinds htour⟩
  | @next geo found cursor pages hanswer hcursor _ ih =>
    let v : Visit := ⟨stop.row, stop.level, geo, found⟩
    have hfinds : search.Finds plan token world.search v := by
      subst hgeo
      exact ⟨hnext, rfl, hanswer _⟩
    cases hempty : found.dataset.isEmpty with
    | true =>
      -- The page has no features: the walk leaves the row, whatever cursor the page names.
      have hread : readPages (found :: pages) = [found] := if_pos hempty
      have hv : v.next = .of none (stop.row + 1) := if_pos hempty
      obtain ⟨last, htour⟩ := hrest (w.worldAfter search plan v world)
      rw [hread] at htour ⊢
      have hplan : w.planAfterPages plan stop.level [found] = w.planAfter plan v :=
        planAfterPages_cons plan v []
      rw [hplan, ← hv] at htour
      exact ⟨last, .visit hfinds htour⟩
    | false =>
      have hread : readPages (found :: pages) = found :: readPages pages :=
        if_neg (by simp [hempty])
      have hv : v.next = .of (some cursor) stop.row := by
        rw [Visit.next, Visit.token, hcursor]
        exact if_neg (by simp [v, hempty])
      rw [hread] at hrest ⊢
      have hplan : w.planAfterPages plan stop.level (found :: readPages pages) =
          w.planAfterPages (w.planAfter plan v) stop.level (readPages pages) :=
        planAfterPages_cons plan v _
      rw [hplan] at hrest
      have hgeo' : (Geo.ofCircle geo.circle).atPage (some cursor) =
          (Geo.ofCircle stop.circle).atPage v.next.cursor := by
        rw [hv, atPage_cursor_of, hgeo]
        rfl
      have hnext' : (w.planAfter plan v).nextCircle v.next.row =
          some (stop.row, stop.level, stop.circle) := by
        rw [hv]
        exact nextCircle_planAfter (v := v) hnext
      obtain ⟨last, htour⟩ := ih hnext' hgeo' hrest (w.worldAfter search plan v world)
      rw [← hcursor] at htour
      exact ⟨last, .visit hfinds htour⟩

/-- The pages that are read of the rows of an itinerary. -/
def visitsOf (pages : Circle → List CircleResult) (stops : List PlanStop) : List Visit :=
  stops.flatMap fun stop => stop.visits (Geo.ofCircle stop.circle) (readPages (pages stop.circle))

/-- Whether a circle is rectified once its pages were read. -/
def isSmall (w : Walker π ρ) (pages : Circle → List CircleResult) (c : Circle) : Bool :=
  w.settings.rectify.rectifiesAny (readPages (pages c))

/-- The tour of a plan, some of whose circles are marked, from a row on.  The induction is on the
entries that are left. -/
theorem exists_tour_from {pages : Circle → List CircleResult}
    (hpages : ∀ level c, .circle level c ∈ plan.entries → search.Pages (Geo.ofCircle c) (pages c))
    (row : Nat) (passed : List String) (hes : plan.entries.drop row = es)
    (world : WalkWorld ω π ρ) :
    let stops := itinerary (w.isSmall pages) row passed es
    ∃ last, w.Tour search (plan.markBelow passed) (.of none row) world (visitsOf pages stops)
      (plan.markBelow (passed ++ smallLevels (w.isSmall pages) stops)) last := by
  induction es generalizing row passed world with
  | nil =>
    refine ⟨w.worldAtEnd (plan.markBelow passed) world, ?_⟩
    simp only [itinerary, smallLevels, List.filter_nil, List.map_nil, List.append_nil]
    refine .finished ?_
    rw [Plan.nextCircle_markBelow]
    simp [ResumeToken.of, hes, Plan.firstCircle]
  | cons e es ih =>
    have hes' : plan.entries.drop (row + 1) = es := by
      rw [← List.tail_drop, hes, List.tail_cons]
    have hnext : ∀ passed, (plan.markBelow passed).nextCircle row =
        Plan.firstCircle row (e.markBelow passed :: es.map (·.markBelow passed)) := by
      intro passed
      rw [Plan.nextCircle_markBelow, hes, List.map_cons]
    have hnext' : ∀ passed, (plan.markBelow passed).nextCircle (row + 1) =
        Plan.firstCircle (row + 1) (es.map (·.markBelow passed)) := by
      intro passed
      rw [Plan.nextCircle_markBelow, hes']
    -- A row that is passed over is as good as its successor.
    have hpass : ∀ {visits final}, e.markBelow passed = .skip e.level →
        (∃ last, w.Tour search (plan.markBelow passed) (.of none (row + 1)) world visits final
          last) →
        ∃ last, w.Tour search (plan.markBelow passed) (.of none row) world visits final last := by
      rintro visits final hskip ⟨last, htour⟩
      refine ⟨last, htour.of_nextCircle_eq ?_ rfl⟩
      simp only [ResumeToken.of, hnext, hskip, hnext', Plan.firstCircle]
    cases e with
    | finish =>
      refine ⟨w.worldAtEnd (plan.markBelow passed) world, ?_⟩
      simp only [itinerary, smallLevels, List.filter_nil, List.map_nil, List.append_nil]
      exact .finished (hnext passed)
    | skip level => exact hpass rfl (ih _ _ hes' world)
    | circle level c =>
      simp only [itinerary]
      split
      · rename_i hbelow
        exact hpass (if_pos hbelow) (ih _ _ hes' world)
      · rename_i hbelow
        have hcircle : (plan.markBelow passed).nextCircle row = some (row, level, c) := by
          rw [hnext, PlanEntry.markBelow, if_neg hbelow, Plan.firstCircle]
        have hmem : .circle level c ∈ plan.entries :=
          List.mem_of_mem_drop (hes ▸ List.mem_cons_self)
        have hplan : w.planAfterPages (plan.markBelow passed) level (readPages (pages c)) =
            plan.markBelow (if w.isSmall pages c then passed ++ [level] else passed) := by
          rw [planAfterPages, isSmall, Plan.skipBelow_markBelow]
          split <;> rfl
        have hlevels : ∀ stops, passed ++ smallLevels (w.isSmall pages) (⟨row, level, c⟩ :: stops) =
            (if w.isSmall pages c then passed ++ [level] else passed) ++
              smallLevels (w.isSmall pages) stops := by
          intro stops
          rw [smallLevels_cons]
          split <;> simp
        rw [hlevels]
        refine exists_tour_of_pages ⟨row, level, c⟩ (hpages level c hmem) hcircle rfl
          (fun world => ?_) world
        rw [hplan]
        exact ih _ _ hes' world

/-- The tour of a plan from a row on reads the pages of the rows of its itinerary, and marks the
circles below the small ones. -/
theorem exists_tour {pages : Circle → List CircleResult}
    (hpages : ∀ level c, .circle level c ∈ plan.entries → search.Pages (Geo.ofCircle c) (pages c))
    (start : Nat) (world : WalkWorld ω π ρ) :
    let stops := plan.itinerary (w.isSmall pages) start
    ∃ last, w.Tour search plan (.of none start) world (visitsOf pages stops)
      (plan.markBelow (smallLevels (w.isSmall pages) stops)) last := by
  have h := exists_tour_from (w := w) hpages start [] rfl world
  rw [Plan.markBelow_nil] at h
  exact h

end Walker

end PlaceSearch
