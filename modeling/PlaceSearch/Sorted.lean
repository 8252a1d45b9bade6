/-!
# Finite sets as increasing lists

A finite set is kept as a strictly increasing list, so that equal sets are equal lists and
members come out in order.
-/

namespace PlaceSearch.Sorted

variable {α : Type} [LT α] [DecidableLT α] [DecidableEq α]

/-- The increasing list with one more member, at its place. -/
def insert (x : α) : List α → List α
  | [] => [x]
  | y :: ys => if x < y then x :: y :: ys else if x = y then y :: ys else y :: insert x ys

@[simp] theorem mem_insert {x y : α} {xs : List α} :
    y ∈ insert x xs ↔ y = x ∨ y ∈ xs := by
  induction xs with
  | nil => simp [insert]
  | cons z zs ih =>
    by_cases h : x < z
    · simp [insert, h]
    · by_cases e : x = z
      · subst e
        simp [insert, h]
      · simp only [insert, h, e, if_false, List.mem_cons, ih]
        exact or_left_comm

/-- The increasing list of the members of a list. -/
def ofList (xs : List α) : List α :=
  xs.foldl (fun acc x => insert x acc) []

theorem mem_foldl_insert {y : α} {xs acc : List α} :
    y ∈ xs.foldl (fun acc x => insert x acc) acc ↔ y ∈ acc ∨ y ∈ xs := by
  induction xs generalizing acc with
  | nil => simp
  | cons x xs ih =>
    simp only [List.foldl_cons, ih, mem_insert, List.mem_cons]
    constructor
    · rintro ((h | h) | h)
      · exact .inr (.inl h)
      · exact .inl h
      · exact .inr (.inr h)
    · rintro (h | h | h)
      · exact .inl (.inr h)
      · exact .inl (.inl h)
      · exact .inr h

/-- Sorting loses no member and adds none. -/
@[simp] theorem mem_ofList {y : α} {xs : List α} : y ∈ ofList xs ↔ y ∈ xs := by
  simp [ofList, mem_foldl_insert]

end PlaceSearch.Sorted
