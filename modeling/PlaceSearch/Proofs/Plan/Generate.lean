import PlaceSearch.Plan.Generate
import PlaceSearch.Proofs.Decimal.Fixed
import PlaceSearch.Proofs.Plan.Mark

/-!
# The end of a generated plan

The rows of circles hold no blank, which the closing text does.  So a plan that is made for a circle
is closed by its last row only, and no circle stands behind its end.
-/

namespace PlaceSearch

/-! ## Rows without blanks -/

theorem not_mem_renderRow (c : Circle) {level : String} (hlevel : ' ' ∉ level.toList) :
    ' ' ∉ (renderRow c level).toList := by
  have hfixed : ∀ places x, ' ' ∉ (Decimal.fixed places x).toList := by
    intro places x hmem
    exact absurd (Decimal.of_mem_fixed hmem) (by decide)
  simp only [renderRow, String.toList_append, List.mem_append, not_or]
  exact ⟨⟨⟨⟨⟨⟨hfixed _ _, by decide⟩, hfixed _ _⟩, by decide⟩, hfixed _ _⟩, by decide⟩, hlevel⟩

theorem not_mem_of_mem_nextLayer {radius : Float} {layer : List (Coordinate × String)}
    (hlayer : ∀ x ∈ layer, ' ' ∉ x.2.toList) : ∀ x ∈ nextLayer radius layer, ' ' ∉ x.2.toList := by
  intro x hx
  obtain ⟨⟨center, level⟩, hmem, hx⟩ := List.mem_flatMap.mp hx
  obtain ⟨i, -, hi⟩ := List.mem_map.mp (List.of_mem_zip hx).2
  have hdigits : ' ' ∉ (toString (i + 1)).toList := by
    rw [Nat.toString_eq_repr, Nat.toList_repr]
    intro hmem
    exact absurd (Decimal.isDigit_of_mem_digits hmem) (by decide)
  rw [← hi]
  simp only [String.toList_append, List.mem_append, not_or]
  exact ⟨⟨hlayer _ hmem, by decide⟩, hdigits⟩

/-- The rows of circles hold no blank, however deep their layer lies. -/
theorem not_mem_of_mem_generateLayers {minRadius radius : Float}
    {layer : List (Coordinate × String)} (hlayer : ∀ x ∈ layer, ' ' ∉ x.2.toList) :
    ∀ row ∈ generateLayers minRadius radius layer, ' ' ∉ row.toList := by
  have hrows : ∀ {radius : Float} {layer : List (Coordinate × String)},
      (∀ x ∈ layer, ' ' ∉ x.2.toList) →
      ∀ row ∈ layer.map fun x => renderRow ⟨x.1, radius⟩ x.2, ' ' ∉ row.toList := by
    intro radius layer hlayer row hrow
    obtain ⟨x, hx, rfl⟩ := List.mem_map.mp hrow
    exact not_mem_renderRow _ (hlayer x hx)
  induction radius, layer using generateLayers.induct minRadius with
  | case1 radius layer hmin hheight ih =>
    rw [generateLayers, if_pos hmin, if_pos hheight]
    intro row hrow
    rcases List.mem_append.mp hrow with hrow | hrow
    · exact hrows hlayer row hrow
    · exact ih (not_mem_of_mem_nextLayer hlayer) row hrow
  | case2 radius layer hmin hheight =>
    rw [generateLayers, if_pos hmin, if_neg hheight]
    exact hrows hlayer
  | case3 radius layer hmin =>
    rw [generateLayers, if_neg hmin]
    exact hrows hlayer

theorem PlanEntry.ofRow_ne_finish {row : String} (h : ' ' ∉ row.toList) :
    ofRow row ≠ .ok .finish := by
  rw [Ne, ofRow_eq_finish_iff, Text.occurs_iff]
  exact fun hend => h (hend.subset (by decide))

/-! ## Plans whose last row closes them -/

namespace Plan

variable {p q : Plan} {name : String}

/-- No circle of the plan stands behind a closing row. -/
def ClosesLast (p : Plan) : Prop :=
  ∀ i j level c, p.entry? i = some .finish → p.entry? j = some (.circle level c) → j < i

theorem ClosesLast.of_marks (h : p.ClosesLast) (hmarks : p.Marks q) : q.ClosesLast :=
  fun i j level c hi hj =>
    h i j level c (hmarks.entry?_finish_iff.mp hi) (hmarks.entry?_of_circle hj)

/-- If nothing is searched next, no circle of such a plan is left. -/
theorem ClosesLast.lt_of_nextCircle (h : p.ClosesLast) {start i : Nat} {level : String} {c : Circle}
    (hend : p.nextCircle start = none) (hcircle : p.entry? i = some (.circle level c)) :
    i < start := by
  by_contra hle
  obtain ⟨j, -, hji, hfinish⟩ := exists_finish_of_nextCircle hend (Nat.not_lt.mp hle) hcircle
  exact Nat.lt_asymm hji (h j i level c hfinish hcircle)

/-- The plan that is made for a circle is closed by its last row only. -/
theorem closesLast_generatePlan {circle : Circle} {minRadius : Float}
    (h : ofRows name (generatePlan circle minRadius) = .ok p) : p.ClosesLast := by
  obtain ⟨-, hrows, hread⟩ := ofRows_eq_ok_iff.mp h
  have hrow : ∀ i e, p.entry? i = some e → ∃ row, p.rows[i]? = some row ∧
      PlanEntry.ofRow row = .ok e := by
    intro i e hi
    obtain ⟨l, hl, rfl⟩ := Option.map_eq_some_iff.mp hi
    exact ⟨l.row, by rw [rows, List.getElem?_map, hl]; rfl, hread l (List.mem_of_getElem? hl)⟩
  have hblank : ∀ row ∈ generateLayers minRadius circle.radius [(circle.center, "1")],
      ' ' ∉ row.toList :=
    not_mem_of_mem_generateLayers (by simp)
  intro i j level c hi hj
  obtain ⟨last, hlast, hfinish⟩ := hrow i _ hi
  obtain ⟨row, hrow, hcircle⟩ := hrow j _ hj
  rw [hrows, generatePlan] at hlast hrow
  -- The closing row is none of the circles' rows, so it is the last one.
  have hi' : (generateLayers minRadius circle.radius [(circle.center, "1")]).length ≤ i := by
    by_contra hlt
    rw [List.getElem?_append_left (Nat.not_le.mp hlt)] at hlast
    exact PlanEntry.ofRow_ne_finish (hblank _ (List.mem_of_getElem? hlast)) hfinish
  by_contra hle
  rw [List.getElem?_append_right (by omega)] at hrow
  obtain rfl : row = PlanEntry.endMarker := List.mem_singleton.mp (List.mem_of_getElem? hrow)
  have hend : PlanEntry.ofRow PlanEntry.endMarker = .ok .finish :=
    PlanEntry.ofRow_eq_finish_iff.mpr (by decide)
  rw [hend] at hcircle
  cases hcircle

end Plan

end PlaceSearch
