import PlaceSearch.Decimal.Fixed

/-!
# The characters of a decimal

A decimal with a fixed number of places is written with digits, a point and a sign; what is
infinite or no number is written with letters.  So such a text holds none of the signs by which
other texts put it together with its neighbours.
-/

namespace PlaceSearch.Decimal

theorem isDigit_of_mem_digits {n : Nat} {c : Char} (h : c ∈ digits n) : c.isDigit = true :=
  Nat.isDigit_of_mem_toDigits (by decide) (by decide) h

theorem isDigit_of_mem_padLeft {width : Nat} {cs : List Char}
    (hcs : ∀ c ∈ cs, c.isDigit = true) {c : Char} (h : c ∈ padLeft width cs) :
    c.isDigit = true := by
  rcases List.mem_append.mp h with h | h
  · rw [List.eq_of_mem_replicate h]
    decide
  · exact hcs c h

theorem of_mem_placed {places n : Nat} {c : Char} (h : c ∈ placed places n) :
    c.isDigit = true ∨ c = '.' := by
  simp only [placed] at h
  split at h
  · exact .inl (isDigit_of_mem_digits h)
  · rcases List.mem_append.mp h with h | h
    · exact .inl (isDigit_of_mem_digits h)
    · rcases List.mem_cons.mp h with h | h
      · exact .inr h
      · exact .inl (isDigit_of_mem_padLeft (fun _ => isDigit_of_mem_digits) h)

/-- A decimal is written with letters, digits, points and signs. -/
theorem of_mem_fixed {places : Nat} {x : Float} {c : Char} (h : c ∈ (fixed places x).toList) :
    c.isAlphanum = true ∨ c = '-' ∨ c = '.' := by
  unfold fixed at h
  split at h
  · next b hb =>
    rw [String.toList_ofList] at h
    rcases List.mem_append.mp h with h | h
    · split at h
      · exact .inr (.inl (List.mem_singleton.mp h))
      · cases h
    · rcases of_mem_placed h with h | h
      · exact .inl (by simp [Char.isAlphanum, h])
      · exact .inr (.inr h)
  · split at h
    · have hall : ∀ c ∈ "-inf".toList, c.isAlphanum = true ∨ c = '-' ∨ c = '.' := by simp
      exact hall c h
    · have hall : ∀ c ∈ "inf".toList, c.isAlphanum = true ∨ c = '-' ∨ c = '.' := by simp
      exact hall c h
  · have hall : ∀ c ∈ "NaN".toList, c.isAlphanum = true ∨ c = '-' ∨ c = '.' := by simp
    exact hall c h

end PlaceSearch.Decimal
