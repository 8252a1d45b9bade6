import PlaceSearch.Cache.Key

/-!
# Keys of plain terms

A key joins its parts with commas and bars.  For terms that hold neither, as the categories of a
query do, it can be taken apart again: two calls at one place share a key exactly if they ask
for the same things.
-/

namespace PlaceSearch

namespace CacheKey

/-- A text that can be told from the signs that join terms and parts of a key. -/
structure IsPlain (t : String) : Prop where
  ne_empty : t ≠ ""
  no_comma : ',' ∉ t.toList
  no_bar : '|' ∉ t.toList

/-- A separator that occurs in neither of two texts tells where they end. -/
theorem append_cons_inj {sep : Char} {xs ys xs' ys' : List Char} (hx : sep ∉ xs) (hy : sep ∉ ys)
    (h : xs ++ sep :: xs' = ys ++ sep :: ys') : xs = ys ∧ xs' = ys' := by
  induction xs generalizing ys with
  | nil =>
    cases ys with
    | nil => exact ⟨rfl, (List.cons.inj h).2⟩
    | cons y ys =>
      obtain ⟨rfl, -⟩ := List.cons.inj h
      exact absurd List.mem_cons_self hy
  | cons x xs ih =>
    rw [List.mem_cons, not_or] at hx
    cases ys with
    | nil => exact absurd (List.cons.inj h).1.symm hx.1
    | cons y ys =>
      rw [List.mem_cons, not_or] at hy
      obtain ⟨rfl, htail⟩ := List.cons.inj h
      obtain ⟨rfl, hrest⟩ := ih hx.2 hy.2 htail
      exact ⟨rfl, hrest⟩

theorem toList_termList (ts : List String) :
    (termList ts).toList = [','].intercalate ((Sorted.ofList ts).map String.toList) := by
  rw [termList, String.toList_intercalate]
  rfl

theorem not_mem_intercalate {c sep : Char} {ls : List (List Char)} (hsep : c ≠ sep)
    (h : ∀ l ∈ ls, c ∉ l) : c ∉ [sep].intercalate ls := by
  induction ls with
  | nil => simp
  | cons l ls ih =>
    obtain ⟨hl, hls⟩ := List.forall_mem_cons.mp h
    by_cases hnil : ls = []
    · simpa [hnil] using hl
    · rw [List.intercalate_cons_of_ne_nil hnil]
      simpa [hsep, hl] using ih hls

theorem no_bar_termList {ts : List String} (h : ∀ t ∈ ts, '|' ∉ t.toList) :
    '|' ∉ (termList ts).toList := by
  rw [toList_termList]
  refine not_mem_intercalate (by decide) fun l hl => ?_
  obtain ⟨t, ht, rfl⟩ := List.mem_map.mp hl
  exact h t (Sorted.mem_ofList.mp ht)

/-- The texts between the commas; nothing has none. -/
def parts (cs : List Char) : List (List Char) :=
  if cs = [] then [] else cs.splitOn ','

theorem parts_termList {ts : List String} (h : ∀ t ∈ ts, IsPlain t) :
    parts (termList ts).toList = (Sorted.ofList ts).map String.toList := by
  have hplain : ∀ t ∈ Sorted.ofList ts, IsPlain t := fun t ht => h t (Sorted.mem_ofList.mp ht)
  rw [toList_termList, parts]
  by_cases hnil : Sorted.ofList ts = []
  · simp [hnil]
  · have hcomma : ∀ l ∈ (Sorted.ofList ts).map String.toList, ',' ∉ l := by
      intro l hl
      obtain ⟨t, ht, rfl⟩ := List.mem_map.mp hl
      exact (hplain t ht).no_comma
    have hsplit := List.splitOn_intercalate ',' hcomma (mt List.map_eq_nil_iff.mp hnil)
    rw [if_neg, hsplit]
    intro hempty
    rw [hempty, List.splitOn_nil] at hsplit
    have hmem : [] ∈ (Sorted.ofList ts).map String.toList := by
      rw [← hsplit]
      exact List.mem_cons_self
    obtain ⟨t, ht, htext⟩ := List.mem_map.mp hmem
    exact (hplain t ht).ne_empty (String.toList_eq_nil_iff.mp htext)

/-- A list of plain terms can be read from its text, but for order and repetition. -/
theorem mem_iff_of_termList_eq {xs ys : List String} (hx : ∀ t ∈ xs, IsPlain t)
    (hy : ∀ t ∈ ys, IsPlain t) (h : termList xs = termList ys) (t : String) :
    t ∈ xs ↔ t ∈ ys := by
  have hparts : (Sorted.ofList xs).map String.toList = (Sorted.ofList ys).map String.toList := by
    rw [← parts_termList hx, ← parts_termList hy, h]
  have hsorted := (List.map_inj_right fun _ _ h => String.toList_inj.mp h).mp hparts
  rw [← Sorted.mem_ofList, hsorted, Sorted.mem_ofList]

/-- The terms of a key at a given place can be read from it. -/
theorem mem_iff_of_build_eq {scope : String} {geo : Geo}
    {included included' excluded excluded' : List String}
    (hi : ∀ t ∈ included, IsPlain t) (hi' : ∀ t ∈ included', IsPlain t)
    (he : ∀ t ∈ excluded, IsPlain t) (he' : ∀ t ∈ excluded', IsPlain t)
    (h : build scope geo included excluded = build scope geo included' excluded') :
    (∀ t, t ∈ included ↔ t ∈ included') ∧ ∀ t, t ∈ excluded ↔ t ∈ excluded' := by
  have hbar : ∀ {ts : List String}, (∀ t ∈ ts, IsPlain t) → '|' ∉ (termList ts).toList :=
    fun h => no_bar_termList fun t ht => (h t ht).no_bar
  have htext := congrArg (fun k => k.canonical.toList) h
  simp only [build, String.toList_append, List.append_assoc, List.append_cancel_left_eq] at htext
  obtain ⟨hincluded, hrest⟩ := append_cons_inj (hbar hi) (hbar hi') htext
  obtain ⟨hexcluded, -⟩ := append_cons_inj (hbar he) (hbar he') (List.cons.inj hrest).2
  exact ⟨mem_iff_of_termList_eq hi hi' (String.toList_inj.mp hincluded),
    mem_iff_of_termList_eq he he' (String.toList_inj.mp hexcluded)⟩

/-- The key of a call is no key of a whole query. -/
theorem build_ne_ofQuery {kind : SearchKind} {geo geo' : Geo} {included excluded : List String}
    {query searchType : String} :
    build kind.name geo included excluded ≠ ofQuery query searchType geo' := by
  intro h
  have hhead := congrArg (fun k => k.canonical.toList.head?) h
  cases kind <;> simp [build, ofQuery, SearchKind.name] at hhead

end CacheKey

end PlaceSearch
