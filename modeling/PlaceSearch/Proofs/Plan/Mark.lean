import PlaceSearch.Proofs.Plan.Row

/-!
# Plans with marked circles

Marking the circles below one level after the other is marking the circles below any of them, and
the rows of a marked plan read as that plan.  What is searched next in a marked plan is the first
circle that lies below none of the levels, unless the plan is closed before it.
-/

namespace PlaceSearch

/-- The entry, marked as passed over if it is a circle below one of the levels. -/
def PlanEntry.markBelow (levels : List String) : PlanEntry → PlanEntry
  | .circle level c => if levels.any (levelBelow level) then .skip level else .circle level c
  | e => e

namespace Plan

/-- The plan with all circles below some levels marked as passed over. -/
def markBelow (p : Plan) (levels : List String) : Plan :=
  { p with lines := p.lines.map fun l => if levels.any (isSkippedBy · l) then skipLine l else l }

/-- The second plan is the first one with further circles marked as passed over. -/
def Marks (p q : Plan) : Prop :=
  ∀ i, q.entry? i = p.entry? i ∨
    ∃ level c, p.entry? i = some (.circle level c) ∧ q.entry? i = some (.skip level)

variable {p q r : Plan} {name level : String} {levels rows : List String} {c : Circle}
  {index start i : Nat} {es : List PlanEntry}

@[simp] theorem name_skipBelow (p : Plan) (level : String) :
    (p.skipBelow level).name = p.name := rfl

@[simp] theorem name_markBelow (p : Plan) (levels : List String) :
    (p.markBelow levels).name = p.name := rfl

@[simp] theorem size_skipBelow (p : Plan) (level : String) : (p.skipBelow level).size = p.size := by
  simp [size, skipBelow]

@[simp] theorem size_markBelow (p : Plan) (levels : List String) :
    (p.markBelow levels).size = p.size := by
  simp [size, markBelow]

theorem entry?_eq (p : Plan) (i : Nat) : p.entry? i = p.entries[i]? := by
  simp [entries, entry?]

theorem lt_size_of_entry? {e : PlanEntry} (h : p.entry? i = some e) : i < p.size := by
  obtain ⟨l, hl, -⟩ := Option.map_eq_some_iff.mp h
  exact (List.getElem?_eq_some_iff.mp hl).1

/-! ## Reading -/

theorem readLines_eq_ok_iff {rows : List String} {ls : List PlanLine} :
    readLines rows = .ok ls ↔
      ls.map (·.row) = rows ∧ ∀ l ∈ ls, PlanEntry.ofRow l.row = .ok l.entry := by
  induction rows generalizing ls with
  | nil =>
    cases ls <;> simp [readLines]
  | cons row rows ih =>
    rw [readLines]
    cases hrow : PlanEntry.ofRow row with
    | error e =>
      cases ls with
      | nil => simp
      | cons l ls =>
        simp only [reduceCtorEq, List.map_cons, List.cons.injEq, List.mem_cons, false_iff]
        rintro ⟨⟨rfl, -⟩, hread⟩
        rw [hread l (.inl rfl)] at hrow
        cases hrow
    | ok entry =>
      cases ls with
      | nil => cases readLines rows <;> simp [Except.map]
      | cons l ls =>
        have htail : (readLines rows).map (⟨row, entry⟩ :: ·) = .ok (l :: ls) ↔
            ⟨row, entry⟩ = l ∧ readLines rows = .ok ls := by
          cases readLines rows <;> simp [Except.map]
        simp only [htail, ih, List.map_cons, List.cons.injEq, List.forall_mem_cons]
        constructor
        · rintro ⟨rfl, hrows, hread⟩
          exact ⟨⟨rfl, hrows⟩, hrow, hread⟩
        · rintro ⟨⟨rfl, hrows⟩, hl, hread⟩
          rw [hrow] at hl
          exact ⟨by rw [Except.ok.inj hl], hrows, hread⟩

theorem ofRows_eq_ok_iff : ofRows name rows = .ok p ↔
    p.name = name ∧ p.rows = rows ∧ ∀ l ∈ p.lines, PlanEntry.ofRow l.row = .ok l.entry := by
  have h : ofRows name rows = .ok p ↔ p.name = name ∧ readLines rows = .ok p.lines := by
    rw [ofRows]
    cases readLines rows with
    | error e => simp [Except.map]
    | ok ls =>
      simp only [Except.map, Except.ok.injEq]
      constructor
      · rintro rfl
        exact ⟨rfl, rfl⟩
      · rintro ⟨rfl, rfl⟩
        rfl
  rw [h, readLines_eq_ok_iff]
  rfl

theorem ofRow_skipLine {l : PlanLine} (hread : PlanEntry.ofRow l.row = .ok l.entry)
    (hskip : isSkippedBy level l = true) :
    PlanEntry.ofRow (skipLine l).row = .ok (skipLine l).entry := by
  obtain ⟨row, entry⟩ := l
  cases entry with
  | circle level c => exact PlanEntry.ofRow_marked hread
  | skip => cases hskip
  | finish => cases hskip

/-- The rows of a plan in which circles were marked read as that plan. -/
theorem ofRows_skipBelow (h : ofRows name rows = .ok p) (level : String) :
    ofRows name (p.skipBelow level).rows = .ok (p.skipBelow level) := by
  obtain ⟨hname, -, hread⟩ := ofRows_eq_ok_iff.mp h
  refine ofRows_eq_ok_iff.mpr ⟨hname, rfl, fun l' hl' => ?_⟩
  obtain ⟨l, hl, rfl⟩ := List.mem_map.mp hl'
  split
  · exact ofRow_skipLine (hread l hl) ‹_›
  · exact hread l hl

/-! ## Marking -/

theorem isSkippedBy_skipLine (level : String) (l : PlanLine) :
    isSkippedBy level (skipLine l) = false := rfl

@[simp] theorem markBelow_nil (p : Plan) : p.markBelow [] = p := by
  simp [markBelow]

/-- Marking the circles below one more level. -/
theorem skipBelow_markBelow (p : Plan) (levels : List String) (level : String) :
    (p.markBelow levels).skipBelow level = p.markBelow (levels ++ [level]) := by
  rw [skipBelow, markBelow, markBelow, List.map_map]
  congr 1
  refine List.map_congr_left fun l _ => ?_
  simp only [Function.comp_apply, List.any_append, List.any_cons, List.any_nil, Bool.or_false]
  cases levels.any (isSkippedBy · l) with
  | true => rw [Bool.true_or, if_pos rfl, isSkippedBy_skipLine]; rfl
  | false => rw [Bool.false_or]; rfl

theorem skipBelow_eq (p : Plan) (level : String) : p.skipBelow level = p.markBelow [level] := by
  rw [← List.nil_append [level], ← skipBelow_markBelow, markBelow_nil]

/-- A plan without circles below a level stays as it is. -/
theorem skipBelow_eq_self (h : p.countBelow level = 0) : p.skipBelow level = p := by
  have hlines : (p.lines.map fun l => if isSkippedBy level l then skipLine l else l) = p.lines := by
    rw [countBelow, List.countP_eq_zero] at h
    rw [List.map_congr_left fun l hl => if_neg (h l hl), List.map_id']
  rw [skipBelow, hlines]

theorem entries_markBelow (p : Plan) (levels : List String) :
    (p.markBelow levels).entries = p.entries.map (·.markBelow levels) := by
  simp only [entries, markBelow, List.map_map]
  refine List.map_congr_left fun l _ => ?_
  obtain ⟨row, entry⟩ := l
  cases entry with
  | circle level c =>
    have hskip : ∀ upper, isSkippedBy upper ⟨row, .circle level c⟩ =
        PlanEntry.levelBelow level upper := fun _ => rfl
    simp only [Function.comp_apply, hskip, PlanEntry.markBelow]
    split <;> simp_all [skipLine, PlanEntry.level]
  | skip => simp [isSkippedBy, PlanEntry.isNormal, PlanEntry.circle?, PlanEntry.markBelow]
  | finish => simp [isSkippedBy, PlanEntry.isNormal, PlanEntry.circle?, PlanEntry.markBelow]

theorem entry?_markBelow {e : Option PlanEntry} (h : p.entry? i = e) (levels : List String) :
    entry? (p.markBelow levels) i = e.map (·.markBelow levels) := by
  rw [← h, entry?_eq, entry?_eq, entries_markBelow, List.getElem?_map]

theorem entry?_markBelow_eq_skip_iff (h : p.entry? i = some (.circle level c)) :
    entry? (p.markBelow levels) i = some (.skip level) ↔
      ∃ upper ∈ levels, PlanEntry.levelBelow level upper = true := by
  rw [entry?_markBelow h, Option.map_some, PlanEntry.markBelow]
  split <;> simp_all

namespace Marks

theorem refl (p : Plan) : p.Marks p := fun _ => .inl rfl

theorem trans (h : p.Marks q) (h' : q.Marks r) : p.Marks r := by
  intro i
  rcases h i with hq | ⟨level, c, hp, hq⟩
  · rcases h' i with hr | ⟨level, c, hq', hr⟩
    · exact .inl (hr.trans hq)
    · exact .inr ⟨level, c, hq ▸ hq', hr⟩
  · rcases h' i with hr | ⟨level', c', hq', -⟩
    · exact .inr ⟨level, c, hp, hr.trans hq⟩
    · rw [hq] at hq'
      cases hq'

theorem markBelow (p : Plan) (levels : List String) : p.Marks (p.markBelow levels) := by
  intro i
  rw [entry?_markBelow rfl]
  cases hp : p.entry? i with
  | none => exact .inl rfl
  | some e =>
    cases e with
    | circle level c =>
      rw [Option.map_some, PlanEntry.markBelow]
      split
      · exact .inr ⟨level, c, rfl, rfl⟩
      · exact .inl rfl
    | skip level => exact .inl rfl
    | finish => exact .inl rfl

theorem skipBelow (p : Plan) (level : String) : p.Marks (p.skipBelow level) := by
  rw [skipBelow_eq]
  exact .markBelow p [level]

/-- What is still a circle was one before. -/
theorem entry?_of_circle (h : p.Marks q) (hq : q.entry? i = some (.circle level c)) :
    p.entry? i = some (.circle level c) := by
  rcases h i with hi | ⟨_, _, -, hi⟩
  · exact hi ▸ hq
  · rw [hi] at hq
    cases hq

/-- What is passed over stays so. -/
theorem entry?_of_skip (h : p.Marks q) (hp : p.entry? i = some (.skip level)) :
    q.entry? i = some (.skip level) := by
  rcases h i with hi | ⟨_, _, hcircle, -⟩
  · exact hi.trans hp
  · rw [hp] at hcircle
    cases hcircle

/-- A circle stays one, or is passed over. -/
theorem entry?_circle_or_skip (h : p.Marks q) (hp : p.entry? i = some (.circle level c)) :
    q.entry? i = some (.circle level c) ∨ q.entry? i = some (.skip level) := by
  rcases h i with hi | ⟨level', c', hcircle, hi⟩
  · exact .inl (hi.trans hp)
  · obtain ⟨rfl, -⟩ : level = level' ∧ c = c' := by simpa [hp] using hcircle
    exact .inr hi

/-- The closing rows stay. -/
theorem entry?_finish_iff (h : p.Marks q) :
    q.entry? i = some .finish ↔ p.entry? i = some .finish := by
  rcases h i with hi | ⟨_, _, hp, hi⟩
  · rw [hi]
  · rw [hi, hp]
    simp

end Marks

/-! ## What is searched next -/

theorem firstCircle_eq_some {k : Nat} (h : firstCircle k es = some (i, level, c)) :
    k ≤ i ∧ es[i - k]? = some (.circle level c) ∧ ∀ j < i - k, ∃ l, es[j]? = some (.skip l) := by
  induction es generalizing k with
  | nil => cases h
  | cons e es ih =>
    cases e with
    | circle level' c' =>
      obtain ⟨rfl, rfl, rfl⟩ : k = i ∧ level' = level ∧ c' = c := by simpa [firstCircle] using h
      simp
    | skip l =>
      obtain ⟨hle, hcircle, hskips⟩ := ih h
      obtain ⟨n, rfl⟩ : ∃ n, i = k + 1 + n := ⟨i - (k + 1), by omega⟩
      have hn : k + 1 + n - k = n + 1 := by omega
      rw [Nat.add_sub_cancel_left] at hcircle hskips
      rw [hn]
      refine ⟨by omega, hcircle, fun j hj => ?_⟩
      cases j with
      | zero => exact ⟨l, rfl⟩
      | succ j => exact hskips j (by omega)
    | finish => cases h

theorem exists_finish_of_firstCircle {k : Nat} (h : firstCircle k es = none)
    (hi : es[i]? = some (.circle level c)) : ∃ j < i, es[j]? = some .finish := by
  induction es generalizing k i with
  | nil => simp at hi
  | cons e es ih =>
    cases e with
    | circle => cases h
    | skip l =>
      cases i with
      | zero => simp at hi
      | succ i =>
        obtain ⟨j, hj, hfinish⟩ := ih h hi
        exact ⟨j + 1, by omega, hfinish⟩
    | finish =>
      cases i with
      | zero => simp at hi
      | succ i => exact ⟨0, by omega, rfl⟩

theorem getElem?_drop_entries (p : Plan) (start j : Nat) :
    (p.entries.drop start)[j]? = p.entry? (start + j) := by
  rw [List.getElem?_drop, entry?_eq]

/-- What is searched next is a circle, and all rows before it are passed over. -/
theorem nextCircle_eq_some (h : p.nextCircle start = some (i, level, c)) :
    start ≤ i ∧ p.entry? i = some (.circle level c) ∧
      ∀ j, start ≤ j → j < i → ∃ l, p.entry? j = some (.skip l) := by
  obtain ⟨hle, hcircle, hskips⟩ := firstCircle_eq_some h
  refine ⟨hle, ?_, fun j hj hji => ?_⟩
  · rw [getElem?_drop_entries, Nat.add_sub_cancel' hle] at hcircle
    exact hcircle
  · have hskip := hskips (j - start) (by omega)
    rw [getElem?_drop_entries, Nat.add_sub_cancel' hj] at hskip
    exact hskip

/-- If nothing is searched next, every circle from there on lies behind the end of the plan. -/
theorem exists_finish_of_nextCircle (h : p.nextCircle start = none) (hi : start ≤ i)
    (hcircle : p.entry? i = some (.circle level c)) :
    ∃ j, start ≤ j ∧ j < i ∧ p.entry? j = some .finish := by
  have hdrop : (p.entries.drop start)[i - start]? = some (.circle level c) := by
    rw [getElem?_drop_entries, Nat.add_sub_cancel' hi, hcircle]
  obtain ⟨j, hj, hfinish⟩ := exists_finish_of_firstCircle h hdrop
  rw [getElem?_drop_entries] at hfinish
  exact ⟨start + j, by omega, by omega, hfinish⟩

theorem nextCircle_markBelow (p : Plan) (levels : List String) (start : Nat) :
    (p.markBelow levels).nextCircle start =
      firstCircle start ((p.entries.drop start).map (·.markBelow levels)) := by
  rw [nextCircle, entries_markBelow, List.map_drop]

/-- A circle that is marked by no level is searched next from its own place on. -/
theorem nextCircle_of_entry? (h : p.entry? i = some (.circle level c)) :
    p.nextCircle i = some (i, level, c) := by
  have hlt : i < p.entries.length := by
    rw [entry?_eq] at h
    exact (List.getElem?_eq_some_iff.mp h).1
  rw [entry?_eq, List.getElem?_eq_getElem hlt, Option.some_inj] at h
  rw [nextCircle, List.drop_eq_getElem_cons hlt, h, firstCircle]

end Plan

end PlaceSearch
