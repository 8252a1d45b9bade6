import Mathlib.Order.RelClasses
import PlaceSearch.Sorted

/-!
# Increasing lists are canonical

Over a strict total order a finite set has one increasing list, so that sorting gives equal
lists exactly for lists with the same members.
-/

namespace PlaceSearch.Sorted

variable {α : Type} [LT α] [DecidableLT α] [DecidableEq α]
  [IsStrictTotalOrder α (· < ·)]

theorem pairwise_insert (x : α) {xs : List α} (h : xs.Pairwise (· < ·)) :
    (insert x xs).Pairwise (· < ·) := by
  induction xs with
  | nil => exact List.pairwise_singleton _ _
  | cons y ys ih =>
    obtain ⟨hy, hys⟩ := List.pairwise_cons.mp h
    rw [insert]
    rcases trichotomous_of (· < ·) x y with hlt | rfl | hgt
    · rw [if_pos hlt]
      refine List.pairwise_cons.mpr ⟨fun z hz => ?_, h⟩
      rcases List.mem_cons.mp hz with rfl | hz
      · exact hlt
      · exact trans_of (· < ·) hlt (hy z hz)
    · rw [if_neg (irrefl x), if_pos rfl]
      exact h
    · have hne : x ≠ y := by
        rintro rfl
        exact irrefl x hgt
      rw [if_neg (asymm hgt), if_neg hne]
      refine List.pairwise_cons.mpr ⟨fun z hz => ?_, ih hys⟩
      rcases mem_insert.mp hz with rfl | hz
      · exact hgt
      · exact hy z hz

theorem pairwise_foldl_insert (xs : List α) {acc : List α} (h : acc.Pairwise (· < ·)) :
    (xs.foldl (fun acc x => insert x acc) acc).Pairwise (· < ·) := by
  induction xs generalizing acc with
  | nil => exact h
  | cons x xs ih => exact ih (pairwise_insert x h)

/-- Sorting gives an increasing list. -/
theorem pairwise_ofList (xs : List α) : (ofList xs).Pairwise (· < ·) :=
  pairwise_foldl_insert xs .nil

theorem nodup_ofList (xs : List α) : (ofList xs).Nodup := by
  refine (pairwise_ofList xs).imp ?_
  rintro a b hab rfl
  exact irrefl a hab

/-- Lists are sorted alike iff they have the same members. -/
theorem ofList_eq_iff {xs ys : List α} : ofList xs = ofList ys ↔ ∀ a, a ∈ xs ↔ a ∈ ys := by
  constructor
  · intro h a
    rw [← mem_ofList, h, mem_ofList]
  · intro h
    have hperm : (ofList xs).Perm (ofList ys) := by
      rw [List.perm_ext_iff_of_nodup (nodup_ofList xs) (nodup_ofList ys)]
      intro a
      rw [mem_ofList, mem_ofList, h a]
    exact hperm.eq_of_pairwise (fun a b _ _ hab hba => absurd hba (asymm hab))
      (pairwise_ofList xs) (pairwise_ofList ys)

end PlaceSearch.Sorted
