import PlaceSearch.Proofs.Cache.Identity

/-!
# Keys of phrases

A search by text is stored under a key of its own, and so is each of its phrases.  The key of a
search for one phrase and nothing else is the key of this phrase.  Any other search has a key that
none of its phrases has, whatever signs the phrases hold: it lists a phrase and more, so that it is
longer.
-/

namespace PlaceSearch.CacheKey

/-- The key of a phrase tells the phrase. -/
theorem partialAnswer_phrase_inj {geo : Geo} {p q : String}
    (h : partialAnswer .text [p] geo = partialAnswer .text [q] geo) : p = q := by
  obtain ⟨-, -, hdemand⟩ := (build_eq_iff (no_bar_kind _) (no_bar_kind _)).mp h
  have htext := congrArg String.toList hdemand
  simp only [demand, termList_singleton, String.toList_append, List.append_cancel_right_eq]
    at htext
  exact String.toList_inj.mp htext

/-! ## Lengths of lists of terms -/

theorem length_le_intercalate {sep : Char} {l : List Char} {ls : List (List Char)} (h : l ∈ ls) :
    l.length ≤ ([sep].intercalate ls).length := by
  induction ls with
  | nil => cases h
  | cons l' ls ih =>
    by_cases hnil : ls = []
    · simp_all
    · rw [List.intercalate_cons_of_ne_nil hnil, List.length_append, List.length_append]
      rcases List.mem_cons.mp h with rfl | h
      · omega
      · have hrest := ih h
        omega

theorem length_lt_intercalate {sep : Char} {l : List Char} {ls : List (List Char)} (h : l ∈ ls)
    (hls : 2 ≤ ls.length) : l.length < ([sep].intercalate ls).length := by
  cases ls with
  | nil => cases h
  | cons l' ls =>
    have hne : ls ≠ [] := by
      rintro rfl
      simp at hls
    rw [List.intercalate_cons_of_ne_nil hne, List.length_append, List.length_append,
      List.length_singleton]
    rcases List.mem_cons.mp h with rfl | h
    · omega
    · have hrest : l.length ≤ ([sep].intercalate ls).length := length_le_intercalate h
      omega

/-- A list of terms is at least as long as each of them. -/
theorem length_le_termList {t : String} {ts : List String} (h : t ∈ ts) :
    t.toList.length ≤ (termList ts).toList.length := by
  rw [toList_termList]
  exact length_le_intercalate (List.mem_map_of_mem (Sorted.mem_ofList.mpr h))

/-- A list of several terms is longer than each of them. -/
theorem length_lt_termList {t : String} {ts : List String} (hnodup : ts.Nodup)
    (hlength : ts.length ≠ 1) (h : t ∈ ts) :
    t.toList.length < (termList ts).toList.length := by
  have hperm : (Sorted.ofList ts).Perm ts :=
    (List.perm_ext_iff_of_nodup (Sorted.nodup_ofList ts) hnodup).mpr fun _ => Sorted.mem_ofList
  have hpos := List.length_pos_of_mem h
  rw [toList_termList]
  refine length_lt_intercalate (List.mem_map_of_mem (Sorted.mem_ofList.mpr h)) ?_
  rw [List.length_map, hperm.length_eq]
  omega

theorem length_termList_pos {ts : List String} (hne : ts ≠ []) (h : ∀ t ∈ ts, t ≠ "") :
    0 < (termList ts).toList.length := by
  obtain ⟨t, ht⟩ := List.exists_mem_of_ne_nil ts hne
  have hpos : 0 < t.toList.length :=
    List.length_pos_iff.mpr fun hnil => h t ht (String.toList_eq_nil_iff.mp hnil)
  exact Nat.lt_of_lt_of_le hpos (length_le_termList ht)

theorem length_demand (geo : Geo) (included excluded : List String) :
    (demand geo included excluded).toList.length =
      (termList included).toList.length + (termList excluded).toList.length +
        (geo.page.getD "").toList.length + 3 := by
  simp only [demand, String.toList_append, List.length_append]
  have hdash : "|-".toList.length = 2 := rfl
  have hbar : "|".toList.length = 1 := rfl
  omega

/-- The key of a phrase tells its length along with that of the page. -/
theorem length_of_partialAnswer_eq {d : CallDescriptor} {geo geo' : Geo} {p : String}
    (h : partialAnswer .text [p] geo' = ofDescriptor d geo) :
    p.toList.length + (geo'.page.getD "").toList.length =
      (termList d.included).toList.length + (termList d.excluded).toList.length +
        (geo.page.getD "").toList.length := by
  obtain ⟨-, -, hdemand⟩ := (build_eq_iff (no_bar_kind _) (no_bar_kind _)).mp h
  have hlength := congrArg (fun s : String => s.toList.length) hdemand
  simp only [length_demand, termList_singleton] at hlength
  have hnil : (termList []).toList.length = 0 := rfl
  omega

/-! ## The key of a search and the keys of its phrases -/

variable {d : CallDescriptor} {geo : Geo} {p : String}

/-- The key of a search for more than one phrase is no key of a phrase that it includes. -/
theorem included_ne_ofDescriptor (hnodup : d.included.Nodup) (hexcluded : ∀ t ∈ d.excluded, t ≠ "")
    (hmore : d.included.length = 1 → d.excluded ≠ []) (hp : p ∈ d.included) :
    partialAnswer .text [p] (if d.included.length = 1 then geo else geo.firstPage) ≠
      ofDescriptor d geo := by
  intro h
  have hlength := length_of_partialAnswer_eq h
  split at hlength
  · next hone =>
    have hle := length_le_termList hp
    have hpos := length_termList_pos (hmore hone) hexcluded
    omega
  · next hmany =>
    have hlt := length_lt_termList hnodup hmany hp
    have hpage : (geo.firstPage.page.getD "").toList.length = 0 := rfl
    omega

/-- The key of a search is no key of a phrase that it excludes. -/
theorem excluded_ne_ofDescriptor (hne : d.included ≠ []) (hincluded : ∀ t ∈ d.included, t ≠ "")
    (hp : p ∈ d.excluded) : partialAnswer .text [p] geo.firstPage ≠ ofDescriptor d geo := by
  intro h
  have hlength := length_of_partialAnswer_eq h
  have hle := length_le_termList hp
  have hpos := length_termList_pos hne hincluded
  have hpage : (geo.firstPage.page.getD "").toList.length = 0 := rfl
  omega

end PlaceSearch.CacheKey
