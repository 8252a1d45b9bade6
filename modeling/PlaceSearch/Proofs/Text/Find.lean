import Mathlib.Data.List.Infix
import PlaceSearch.Text.Find

/-!
# Where a text occurs

Occurring in a text is being an infix of it.  A text that lacks a sign occurs in two texts joined by
that sign only if it occurs in one of them.
-/

namespace PlaceSearch.Text

theorem startsWith?_isSome_iff {p cs : List Char} : (startsWith? p cs).isSome ↔ p <+: cs := by
  rw [Option.isSome_iff_exists]
  simp only [startsWith?_eq_some_iff]
  exact ⟨fun ⟨r, h⟩ => ⟨r, h.symm⟩, fun ⟨r, h⟩ => ⟨r, h.symm⟩⟩

theorem occurs_iff {p cs : List Char} : occurs p cs = true ↔ p <:+: cs := by
  induction cs with
  | nil => simp [occurs]
  | cons c cs ih => simp [occurs, startsWith?_isSome_iff, ih, List.infix_cons_iff]

/-- What lacks a sign and begins a text that has it, begins the part before the sign. -/
theorem prefix_of_prefix_append_cons {p xs ys : List Char} {a : Char} (ha : a ∉ p)
    (h : p <+: xs ++ a :: ys) : p <+: xs := by
  induction xs generalizing p with
  | nil =>
    cases p with
    | nil => exact List.nil_prefix
    | cons b p =>
      obtain ⟨rfl, -⟩ := List.cons_prefix_cons.mp h
      simp at ha
  | cons x xs ih =>
    cases p with
    | nil => exact List.nil_prefix
    | cons b p =>
      obtain ⟨rfl, hp⟩ := List.cons_prefix_cons.mp h
      exact List.cons_prefix_cons.mpr ⟨rfl, ih (by simp_all) hp⟩

/-- What lacks a sign occurs in two texts joined by it only within one of them. -/
theorem occurs_append_cons {p xs ys : List Char} {a : Char} (ha : a ∉ p)
    (h : occurs p (xs ++ a :: ys) = true) : occurs p xs = true ∨ occurs p ys = true := by
  simp only [occurs_iff] at h ⊢
  induction xs with
  | nil =>
    rcases List.infix_cons_iff.mp h with hp | hp
    · rw [← List.nil_append (a :: ys)] at hp
      exact .inl (prefix_of_prefix_append_cons ha hp).isInfix
    · exact .inr hp
  | cons x xs ih =>
    rcases List.infix_cons_iff.mp h with hp | hp
    · exact .inl (prefix_of_prefix_append_cons ha hp).isInfix
    · exact (ih hp).imp_left fun h => h.trans (List.suffix_cons x xs).isInfix

end PlaceSearch.Text
