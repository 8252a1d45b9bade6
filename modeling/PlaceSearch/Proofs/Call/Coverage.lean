import PlaceSearch.Call.Optimize

/-!
# Exclusions lose no place

Calls for single categories exclude the categories called for before, and all later calls over
categories exclude the single ones.  This saves answers but changes no result: a place with
one of the single categories is answered by the first call that asks for one it has, and for
any other place the additional exclusions are void.
-/

namespace PlaceSearch

namespace Optimize

/-- Whether a place with the given types has one of some types. -/
def meets (types texts : List String) : Bool :=
  texts.any types.contains

theorem meets_eq_true_iff {types texts : List String} :
    meets types texts = true ↔ ∃ t ∈ texts, t ∈ types := by
  simp [meets]

theorem meets_append (types xs ys : List String) :
    meets types (xs ++ ys) = (meets types xs || meets types ys) :=
  List.any_append

theorem answers_eq (d : CallDescriptor) (types : List String) :
    d.answers types =
      ((d.included.isEmpty || meets types d.included) && !meets types d.excluded) :=
  rfl

/-! ## What a call excludes -/

/-- A call excludes what its clause does and what was called for before, unless the call asks
for it. -/
theorem mem_exclude {t : String} {excluded included called : List String} :
    t ∈ exclude excluded included called ↔
      t ∈ excluded ∨ (t ∈ called ∧ t ∉ included) := by
  rw [exclude]
  induction called generalizing excluded with
  | nil => simp
  | cons u called ih =>
    rw [List.foldl_cons, ih]
    by_cases hu : u ∈ excluded ∨ u ∈ included
    · rw [if_pos (by simpa using hu), List.mem_cons]
      grind
    · rw [if_neg (by simpa using hu), List.mem_append, List.mem_singleton, List.mem_cons]
      grind

/-- The additional exclusions are void for a place that has nothing of what was called for
before. -/
theorem meets_exclude {types called : List String} (h : meets types called = false)
    (excluded included : List String) :
    meets types (exclude excluded included called) = meets types excluded := by
  rw [Bool.eq_iff_iff, meets_eq_true_iff, meets_eq_true_iff]
  constructor
  · rintro ⟨t, ht, htypes⟩
    rcases mem_exclude.mp ht with ht | ⟨ht, -⟩
    · exact ⟨t, ht, htypes⟩
    · rw [← Bool.not_eq_true, meets_eq_true_iff] at h
      exact absurd ⟨t, ht, htypes⟩ h
  · rintro ⟨t, ht, htypes⟩
    exact ⟨t, mem_exclude.mpr (.inl ht), htypes⟩

theorem answers_negativeCall {types called : List String} {c : Clause}
    (h : meets types called = false) (hc : c.included = []) :
    (negativeCall called c).answers types = (plainCall .category c).answers types := by
  simp only [answers_eq, negativeCall, plainCall, meets_exclude h, hc, texts, List.map_nil]

theorem answers_compoundCall {types called : List String} (h : meets types called = false)
    (c : Clause) :
    (compoundCall called c).answers types = (plainCall .category c).answers types := by
  simp only [answers_eq, compoundCall, plainCall, meets_exclude h]

/-! ## The groups of clauses -/

/-- A single category includes something and excludes nothing. -/
theorem isPositive_spec {c : Clause} (h : isPositive c = true) :
    c.included ≠ [] ∧ c.excluded = [] := by
  simp only [isPositive, Clause.isSimple, Clause.size, Bool.and_eq_true, beq_iff_eq,
    List.isEmpty_iff] at h
  obtain ⟨⟨-, hsize⟩, hexc⟩ := h
  refine ⟨?_, hexc⟩
  rintro hinc
  simp [hinc, hexc] at hsize

/-- A single negated category includes nothing. -/
theorem isNegative_spec {c : Clause} (h : isNegative c = true) : c.included = [] := by
  simp only [isNegative, Clause.isSimple, Clause.size, Bool.and_eq_true, beq_iff_eq,
    Bool.not_eq_true', List.isEmpty_eq_false_iff, ← List.length_pos_iff] at h
  obtain ⟨⟨-, hsize⟩, hexc⟩ := h
  rw [← List.length_eq_zero_iff]
  omega

/-- Every clause over categories falls into one of three groups. -/
theorem isPositive_or_isNegative_or_isCompound {c : Clause} (h : c.kind = .category) :
    isPositive c = true ∨ isNegative c = true ∨ isCompound c = true := by
  simp only [isPositive, isNegative, isCompound, h]
  cases c.isSimple <;> cases c.excluded.isEmpty <;> simp

/-- The call for a single category alone answers the places that have it. -/
theorem answers_plainCall_of_isPositive {c : Clause} (h : isPositive c = true)
    (types : List String) :
    (plainCall .category c).answers types = meets types (texts c.included) := by
  obtain ⟨hinc, hexc⟩ := isPositive_spec h
  simp [answers_eq, plainCall, texts, hinc, hexc, meets]

/-! ## Places that satisfy a clause -/

/-- The call for a clause alone answers the places that satisfy the clause: a place with all
included types has one of them. -/
theorem answers_plainCall_of_eval {c : Clause} {types : List String}
    (h : c.eval (fun t => types.contains t.text) = true) :
    (plainCall .category c).answers types = true := by
  simp only [Clause.eval, Bool.and_eq_true, List.all_eq_true, List.contains_iff_mem,
    Bool.not_eq_true'] at h
  obtain ⟨hincluded, hexcluded⟩ := h
  rw [answers_eq, Bool.and_eq_true]
  constructor
  · cases hc : c.included with
    | nil => simp [plainCall, texts, hc]
    | cons t ts =>
      have ht : t ∈ c.included := hc ▸ List.mem_cons_self
      rw [Bool.or_eq_true, meets_eq_true_iff]
      exact .inr ⟨t.text, List.mem_map_of_mem ht, hincluded t ht⟩
  · rw [Bool.not_eq_true', ← Bool.not_eq_true, meets_eq_true_iff]
    rintro ⟨_, hmem, htypes⟩
    obtain ⟨t, ht, rfl⟩ := List.mem_map.mp hmem
    simpa [htypes] using hexcluded t ht

/-- With one included category at most, having one of them is having all of them. -/
theorem eval_of_answers_plainCall {c : Clause} (hc : c.included.length ≤ 1)
    {types : List String} (h : (plainCall .category c).answers types = true) :
    c.eval (fun t => types.contains t.text) = true := by
  rw [answers_eq, Bool.and_eq_true, Bool.not_eq_true', ← Bool.not_eq_true, meets_eq_true_iff] at h
  obtain ⟨hincluded, hexcluded⟩ := h
  rw [Clause.eval, Bool.and_eq_true]
  constructor
  · match hinc : c.included with
    | [] => rfl
    | [t] => simpa [plainCall, texts, hinc, meets] using hincluded
    | _ :: _ :: _ => simp [hinc] at hc
  · rw [List.all_eq_true]
    intro t ht
    have hnone : t.text ∉ types := fun htypes =>
      hexcluded ⟨t.text, List.mem_map_of_mem ht, htypes⟩
    simpa using hnone

/-! ## The calls for single categories -/

/-- What was called for before does not matter as long as the place has nothing of it: then
the calls answer it iff it has one of the categories.  The first call that asks for one of its
categories is the one that answers. -/
theorem exists_answers_positiveCalls_iff {types called : List String} {cs : List Clause}
    (hcs : ∀ c ∈ cs, c.included ≠ []) (h : meets types called = false) :
    (∃ d ∈ positiveCalls called cs, d.answers types = true) ↔
      meets types (cs.flatMap fun c => texts c.included) = true := by
  induction cs generalizing called with
  | nil => simp [positiveCalls, meets]
  | cons c cs ih =>
    have hne : (texts c.included).isEmpty = false := by
      simpa [texts] using hcs c List.mem_cons_self
    have hhead : (CallDescriptor.mk (texts c.included) called .category).answers types =
        meets types (texts c.included) := by
      simp [answers_eq, h, hne]
    simp only [positiveCalls, List.mem_cons, exists_eq_or_imp, hhead, List.flatMap_cons,
      meets_append, Bool.or_eq_true]
    cases hmeet : meets types (texts c.included) with
    | true => simp
    | false =>
      have htail : meets types (called ++ texts c.included) = false := by
        rw [meets_append, h, hmeet, Bool.or_self]
      rw [ih (fun c' hc' => hcs c' (List.mem_cons_of_mem _ hc')) htail]

/-- The calls for single categories search by category, and mention these categories and the
ones called for before. -/
theorem of_mem_positiveCalls {called : List String} {cs : List Clause} {d : CallDescriptor}
    (h : d ∈ positiveCalls called cs) :
    d.kind = .category ∧
      ∀ t, d.mentions t = true → t ∈ called ∨ ∃ c ∈ cs, t ∈ texts c.included := by
  induction cs generalizing called with
  | nil => cases h
  | cons c cs ih =>
    rcases List.mem_cons.mp h with rfl | h
    · refine ⟨rfl, fun t ht => ?_⟩
      simp only [CallDescriptor.mentions, Bool.or_eq_true, List.contains_iff_mem] at ht
      rcases ht with ht | ht
      · exact .inr ⟨c, List.mem_cons_self, ht⟩
      · exact .inl ht
    · obtain ⟨hkind, hmentions⟩ := ih h
      refine ⟨hkind, fun t ht => ?_⟩
      rcases hmentions t ht with ht | ⟨c', hc', ht⟩
      · rcases List.mem_append.mp ht with ht | ht
        · exact .inl ht
        · exact .inr ⟨c, List.mem_cons_self, ht⟩
      · exact .inr ⟨c', List.mem_cons_of_mem c hc', ht⟩

theorem mem_byDensity {popularity : Option Popularity} {c : Clause} {cs : List Clause} :
    c ∈ byDensity popularity cs ↔ c ∈ cs :=
  (List.mergeSort_perm cs _).mem_iff

end Optimize

open Optimize

/-- The single categories that are called for, in the order of their calls. -/
private theorem mem_positives {popularity : Option Popularity} {c : Clause}
    {clauses : List Clause} :
    c ∈ byDensity popularity (clauses.filter isPositive) ↔
      c ∈ clauses ∧ isPositive c = true := by
  rw [mem_byDensity, List.mem_filter]

private theorem exists_answers_positives_iff {popularity : Option Popularity}
    {clauses : List Clause} {types : List String} :
    (∃ d ∈ positiveCalls [] (byDensity popularity (clauses.filter isPositive)),
      d.answers types = true) ↔
      meets types ((byDensity popularity (clauses.filter isPositive)).flatMap
        fun c => texts c.included) = true :=
  exists_answers_positiveCalls_iff
    (fun _ hc => (isPositive_spec (mem_positives.mp hc).2).1) rfl

/-- The calls for clauses over categories search by category, and mention no other terms. -/
theorem of_mem_optimize {clauses : List Clause} (h : ∀ c ∈ clauses, c.kind = .category)
    {popularity : Option Popularity} {d : CallDescriptor} (hd : d ∈ optimize clauses popularity) :
    d.kind = .category ∧
      ∀ t, d.mentions t = true → ∃ c ∈ clauses, ∃ u ∈ c.terms, u.text = t := by
  have hincluded : ∀ c ∈ clauses, ∀ t ∈ texts c.included,
      ∃ c ∈ clauses, ∃ u ∈ c.terms, u.text = t := by
    intro c hc t ht
    obtain ⟨u, hu, rfl⟩ := List.mem_map.mp ht
    exact ⟨c, hc, u, List.mem_append_left _ hu, rfl⟩
  have hexcluded : ∀ c ∈ clauses, ∀ t ∈ texts c.excluded,
      ∃ c ∈ clauses, ∃ u ∈ c.terms, u.text = t := by
    intro c hc t ht
    obtain ⟨u, hu, rfl⟩ := List.mem_map.mp ht
    exact ⟨c, hc, u, List.mem_append_right _ hu, rfl⟩
  have hcalled : ∀ t ∈ (byDensity popularity (clauses.filter isPositive)).flatMap
      fun c => texts c.included, ∃ c ∈ clauses, ∃ u ∈ c.terms, u.text = t := by
    intro t ht
    obtain ⟨c, hc, ht⟩ := List.mem_flatMap.mp ht
    exact hincluded c (mem_positives.mp hc).1 t ht
  simp only [optimize, List.mem_append, List.mem_map, List.mem_filter] at hd
  rcases hd with ((hd | ⟨c, ⟨hc, -⟩, rfl⟩) | ⟨c, ⟨hc, -⟩, rfl⟩) | ⟨c, ⟨hc, hphrase⟩, -⟩
  · obtain ⟨hkind, hmentions⟩ := of_mem_positiveCalls hd
    refine ⟨hkind, fun t ht => ?_⟩
    obtain ⟨c, hc, ht⟩ := (hmentions t ht).resolve_left List.not_mem_nil
    exact hincluded c (mem_positives.mp hc).1 t ht
  · refine ⟨rfl, fun t ht => ?_⟩
    simp only [CallDescriptor.mentions, negativeCall, Bool.or_eq_true, List.contains_iff_mem,
      List.not_mem_nil, false_or, mem_exclude] at ht
    rcases ht with ht | ⟨ht, -⟩
    · exact hexcluded c hc t ht
    · exact hcalled t ht
  · refine ⟨rfl, fun t ht => ?_⟩
    simp only [CallDescriptor.mentions, compoundCall, Bool.or_eq_true, List.contains_iff_mem,
      mem_exclude] at ht
    rcases ht with ht | ht | ⟨ht, -⟩
    · exact hincluded c hc t ht
    · exact hexcluded c hc t ht
    · exact hcalled t ht
  · simp [hasPhrase, h c hc] at hphrase

/-- A single clause over categories is called for as it is. -/
theorem optimize_singleton {c : Clause} (h : c.kind = .category)
    (popularity : Option Popularity) : optimize [c] popularity = [plainCall .category c] := by
  have hphrase : hasPhrase c = false := by simp [hasPhrase, h]
  cases hsimple : c.isSimple with
  | false =>
    simp [optimize, byDensity, positiveCalls, compoundCall, plainCall, isPositive, isNegative,
      isCompound, h, hsimple, hphrase, exclude]
  | true =>
    cases hempty : c.excluded.isEmpty with
    | false =>
      have hnegative : isNegative c = true := by simp [isNegative, h, hsimple, hempty]
      simp [optimize, byDensity, positiveCalls, negativeCall, plainCall, isPositive, isNegative,
        isCompound, h, hsimple, hphrase, hempty, exclude, isNegative_spec hnegative, texts]
    | true =>
      simp [optimize, byDensity, positiveCalls, plainCall, isPositive, isNegative, isCompound, h,
        hsimple, hphrase, List.isEmpty_iff.mp hempty, texts]

/-- A place that has one of the single categories is answered on both sides. -/
private theorem exists_answers_of_meets {clauses : List Clause}
    {popularity : Option Popularity} {types : List String}
    (h : meets types ((byDensity popularity (clauses.filter isPositive)).flatMap
      fun c => texts c.included) = true) :
    (∃ d ∈ optimize clauses popularity, d.answers types = true) ∧
      ∃ c ∈ clauses, (plainCall .category c).answers types = true := by
  constructor
  · obtain ⟨d, hd, hans⟩ := exists_answers_positives_iff.mpr h
    exact ⟨d, by simp [optimize, hd], hans⟩
  · obtain ⟨t, ht, htypes⟩ := meets_eq_true_iff.mp h
    obtain ⟨c, hc, htc⟩ := List.mem_flatMap.mp ht
    obtain ⟨hmem, hpos⟩ := mem_positives.mp hc
    refine ⟨c, hmem, ?_⟩
    rw [answers_plainCall_of_isPositive hpos]
    exact meets_eq_true_iff.mpr ⟨t, htc, htypes⟩

/-- A place that has none of the single categories is answered by a call exactly if the plain
call of its clause answers it. -/
private theorem exists_answers_iff_of_not_meets {clauses : List Clause}
    (hcat : ∀ c ∈ clauses, c.kind = .category) {popularity : Option Popularity}
    {types : List String}
    (h : meets types ((byDensity popularity (clauses.filter isPositive)).flatMap
      fun c => texts c.included) = false) :
    (∃ d ∈ optimize clauses popularity, d.answers types = true) ↔
      ∃ c ∈ clauses, (plainCall .category c).answers types = true := by
  constructor
  · rintro ⟨d, hd, hans⟩
    simp only [optimize, List.mem_append, List.mem_map, List.mem_filter] at hd
    rcases hd with ((hd | ⟨c, ⟨hc, hneg⟩, rfl⟩) | ⟨c, ⟨hc, -⟩, rfl⟩) | ⟨c, ⟨hc, hphrase⟩, -⟩
    · have hmeet := exists_answers_positives_iff.mp ⟨d, hd, hans⟩
      simp [h] at hmeet
    · rw [answers_negativeCall h (isNegative_spec hneg)] at hans
      exact ⟨c, hc, hans⟩
    · rw [answers_compoundCall h] at hans
      exact ⟨c, hc, hans⟩
    · simp [hasPhrase, hcat c hc] at hphrase
  · rintro ⟨c, hc, hans⟩
    rcases isPositive_or_isNegative_or_isCompound (hcat c hc) with hpos | hneg | hcomp
    · rw [answers_plainCall_of_isPositive hpos] at hans
      obtain ⟨t, ht, htypes⟩ := meets_eq_true_iff.mp hans
      rw [← Bool.not_eq_true, meets_eq_true_iff] at h
      exact absurd ⟨t, List.mem_flatMap.mpr ⟨c, mem_positives.mpr ⟨hc, hpos⟩, ht⟩, htypes⟩ h
    · refine ⟨_, ?_, (answers_negativeCall h (isNegative_spec hneg)).trans hans⟩
      simp only [optimize, List.mem_append, List.mem_map, List.mem_filter]
      exact .inl (.inl (.inr ⟨c, ⟨hc, hneg⟩, rfl⟩))
    · refine ⟨_, ?_, (answers_compoundCall h c).trans hans⟩
      simp only [optimize, List.mem_append, List.mem_map, List.mem_filter]
      exact .inl (.inr ⟨c, ⟨hc, hcomp⟩, rfl⟩)

/-- Whether a place is answered by the planned calls, all together, is decided by the plain
calls. -/
theorem any_answers_optimize {clauses : List Clause} (h : ∀ c ∈ clauses, c.kind = .category)
    (popularity : Option Popularity) (types : List String) :
    (optimize clauses popularity).any (·.answers types) =
      clauses.any fun c => (plainCall .category c).answers types := by
  rw [Bool.eq_iff_iff, List.any_eq_true, List.any_eq_true]
  cases hmeet : meets types ((byDensity popularity (clauses.filter isPositive)).flatMap
      fun c => texts c.included) with
  | true =>
    obtain ⟨hcall, hplain⟩ := exists_answers_of_meets hmeet
    exact iff_of_true hcall hplain
  | false => exact exists_answers_iff_of_not_meets h hmeet

/-- A place is answered by some planned call iff it is answered by the call for some clause
alone: no exclusion loses a place or adds one, whatever the order and the densities of the
clauses. -/
theorem exists_answers_optimize_iff {clauses : List Clause}
    (h : ∀ c ∈ clauses, c.kind = .category) (popularity : Option Popularity)
    (types : List String) :
    (∃ d ∈ optimize clauses popularity, d.answers types = true) ↔
      ∃ c ∈ clauses, (plainCall .category c).answers types = true := by
  rw [← List.any_eq_true, ← List.any_eq_true, any_answers_optimize h]

/-- A clause of every group, under a table that puts the second category first. -/
theorem exists_answers_optimize_iff_of_each_group :
    let clauses : List Clause :=
      [⟨[.category "bar"], []⟩, ⟨[.category "cafe"], []⟩, ⟨[], [.category "park"]⟩,
        ⟨[.category "museum", .category "zoo"], [.category "spa"]⟩, ⟨[], []⟩]
    let popularity := Popularity.ofPairs [("Cafe", 2.0), ("bar", 0.5)]
    (∀ c ∈ clauses, c.kind = .category) ∧
      ((∃ d ∈ optimize clauses (some popularity), d.answers ["bar", "park"] = true) ↔
        ∃ c ∈ clauses, (plainCall .category c).answers ["bar", "park"] = true) :=
  ⟨by decide, exists_answers_optimize_iff (by decide) _ _⟩

end PlaceSearch
