import PlaceSearch.Proofs.Plan.Mark

/-!
# Marking the circles below a level

A level lies below another one if its dotted components go on from all components of the other, so
that `1.10` does not lie below `1.1`.  Marking a level changes the rows of the circles below it and
no others, and tells how many these are; a second time there are none.  The rows of a plan say what
the plan holds, however many levels are marked.
-/

namespace PlaceSearch

/-! ## Components -/

theorem intercalate_append_cons {α : Type} (sep : List α) {xs : List (List α)} (hxs : xs ≠ [])
    (y : List α) (ys : List (List α)) :
    sep.intercalate (xs ++ y :: ys) = sep.intercalate xs ++ sep ++ sep.intercalate (y :: ys) := by
  induction xs with
  | nil => exact absurd rfl hxs
  | cons x xs ih =>
    rw [List.cons_append, List.intercalate_cons_of_ne_nil (by simp)]
    by_cases hnil : xs = []
    · simp [hnil]
    · rw [ih hnil, List.intercalate_cons_of_ne_nil hnil]
      simp

namespace PlanEntry

/-- The dotted components of a level. -/
def components (level : String) : List (List Char) :=
  level.toList.splitOn '.'

theorem components_ne_nil (level : String) : components level ≠ [] :=
  List.splitOn_ne_nil '.' level.toList

/-- The components of one level are followed by further ones exactly if its text is followed by a
dot. -/
theorem components_strictPrefix_iff {lower upper : String} :
    (components upper <+: components lower ∧ components upper ≠ components lower) ↔
      ∃ rest, lower.toList = upper.toList ++ '.' :: rest := by
  constructor
  · rintro ⟨⟨parts, hparts⟩, hne⟩
    cases parts with
    | nil => exact absurd (by simpa using hparts) hne
    | cons part parts =>
      refine ⟨['.'].intercalate (part :: parts), ?_⟩
      calc lower.toList = ['.'].intercalate (components lower) :=
            (List.intercalate_splitOn '.').symm
        _ = ['.'].intercalate (components upper) ++ ['.'] ++
              ['.'].intercalate (part :: parts) := by
            rw [← hparts, intercalate_append_cons ['.'] (components_ne_nil upper)]
        _ = upper.toList ++ '.' :: ['.'].intercalate (part :: parts) := by
            rw [components, List.intercalate_splitOn, List.append_assoc]
            rfl
  · rintro ⟨rest, hrest⟩
    have hsplit : components lower = components upper ++ rest.splitOn '.' := by
      rw [components, hrest, List.splitOn_append_cons_self, components]
    rw [hsplit]
    refine ⟨List.prefix_append _ _, fun heq => ?_⟩
    exact List.splitOn_ne_nil '.' rest (List.self_eq_append_right.mp heq)

/-- A level lies below another one if its components begin with those of the other, and go on. -/
theorem levelBelow_iff_components {lower upper : String} (h : upper ≠ "") :
    levelBelow lower upper = true ↔
      components upper <+: components lower ∧ components upper ≠ components lower := by
  rw [levelBelow_iff, components_strictPrefix_iff]
  exact and_iff_right h

@[simp] theorem levelBelow_empty (level : String) : levelBelow level "" = false := rfl

end PlanEntry

namespace Plan

variable {p q : Plan} {name level : String} {levels rows : List String} {i : Nat}

/-- The row is that of a circle whose level has the components of a level, and more. -/
def HasBelow (p : Plan) (level : String) (i : Nat) : Prop :=
  ∃ lower c, p.entry? i = some (.circle lower c) ∧
    PlanEntry.components level <+: PlanEntry.components lower ∧
    PlanEntry.components level ≠ PlanEntry.components lower

/-- The second plan is the first one with the circles below a level marked as passed over, which
are `n` in number. -/
structure Skips (p : Plan) (level : String) (n : Nat) (q : Plan) : Prop where
  name : q.name = p.name
  size : q.size = p.size
  marked : ∀ i, p.HasBelow level i →
    q.rows[i]? = (p.rows[i]?).map (· ++ "_skip") ∧
      q.entry? i = (p.entry? i).map (.skip ·.level)
  kept : ∀ i, ¬p.HasBelow level i → q.rows[i]? = p.rows[i]? ∧ q.entry? i = p.entry? i
  count : n = (List.range p.size).countP fun i => q.rows[i]? ≠ p.rows[i]?

/-! ## One level -/

theorem isSkippedBy_iff {l : PlanLine} (h : level ≠ "") : isSkippedBy level l = true ↔
    ∃ lower c, l.entry = .circle lower c ∧
      PlanEntry.components level <+: PlanEntry.components lower ∧
      PlanEntry.components level ≠ PlanEntry.components lower := by
  obtain ⟨row, entry⟩ := l
  cases entry with
  | circle lower c =>
    have hskip : isSkippedBy level ⟨row, .circle lower c⟩ = PlanEntry.levelBelow lower level := rfl
    rw [hskip, PlanEntry.levelBelow_iff_components h]
    simp
  | skip => simp [isSkippedBy, PlanEntry.isNormal, PlanEntry.circle?]
  | finish => simp [isSkippedBy, PlanEntry.isNormal, PlanEntry.circle?]

theorem hasBelow_iff (h : level ≠ "") :
    p.HasBelow level i ↔ ∃ l, p.lines[i]? = some l ∧ isSkippedBy level l = true := by
  simp only [HasBelow, entry?, Option.map_eq_some_iff, isSkippedBy_iff h]
  constructor
  · rintro ⟨lower, c, ⟨l, hl, hentry⟩, hbelow⟩
    exact ⟨l, hl, lower, c, hentry, hbelow⟩
  · rintro ⟨l, hl, lower, c, hentry, hbelow⟩
    exact ⟨lower, c, ⟨l, hl, hentry⟩, hbelow⟩

theorem getElem?_skipBelow (p : Plan) (level : String) (i : Nat) :
    (p.skipBelow level).lines[i]? =
      (p.lines[i]?).map fun l => if isSkippedBy level l then skipLine l else l := by
  rw [skipBelow, List.getElem?_map]

theorem row_skipLine (l : PlanLine) : (skipLine l).row = l.row ++ "_skip" := by
  rw [skipLine, PlanEntry.skipMarker, String.append_assoc]
  rfl

/-- A marked row is a longer one. -/
theorem row_skipLine_ne (l : PlanLine) : (skipLine l).row ≠ l.row := by
  intro h
  have hlength := congrArg String.length h
  rw [row_skipLine, String.length_append] at hlength
  have hmark : "_skip".length = 5 := by decide
  omega

/-- The rows that marking a level changes are as many as it says. -/
theorem countP_changed (p : Plan) (level : String) :
    ((List.range p.size).countP fun i => (p.skipBelow level).rows[i]? ≠ p.rows[i]?) =
      p.countBelow level := by
  have hlines : p.lines.map some = (List.range p.size).map (p.lines[·]?) := by
    refine List.ext_getElem (by simp [size]) fun i hi _ => ?_
    rw [List.length_map] at hi
    simp [hi]
  have hcount : p.countBelow level =
      (p.lines.map some).countP (·.any (isSkippedBy level)) := by
    rw [countBelow, List.countP_map]
    rfl
  rw [hcount, hlines, List.countP_map]
  refine List.countP_congr fun i hi => ?_
  have hlt : i < p.lines.length := List.mem_range.mp hi
  simp only [Function.comp_apply, rows, List.getElem?_map, getElem?_skipBelow,
    List.getElem?_eq_getElem hlt, Option.map_some, Option.any_some]
  cases hskip : isSkippedBy level p.lines[i] with
  | true => simp [row_skipLine_ne]
  | false => simp

/-- Marking a level changes the circles below it, and nothing else. -/
theorem skips_skipBelow (p : Plan) (h : level ≠ "") :
    p.Skips level (p.countBelow level) (p.skipBelow level) where
  name := rfl
  size := size_skipBelow p level
  marked := by
    intro i hbelow
    obtain ⟨l, hl, hskip⟩ := (hasBelow_iff h).mp hbelow
    simp only [rows, entry?, List.getElem?_map, getElem?_skipBelow, hl, Option.map_some,
      if_pos hskip, row_skipLine]
    exact ⟨trivial, rfl⟩
  kept := by
    intro i hkept
    simp only [rows, entry?, List.getElem?_map, getElem?_skipBelow, Option.map_map]
    cases hl : p.lines[i]? with
    | none => exact ⟨rfl, rfl⟩
    | some l =>
      have hskip : ¬isSkippedBy level l = true :=
        fun hskip => hkept ((hasBelow_iff h).mpr ⟨l, hl, hskip⟩)
      simp [hskip]
  count := (countP_changed p level).symm

theorem countBelow_empty (p : Plan) : p.countBelow "" = 0 := by
  simp [countBelow, isSkippedBy, PlanEntry.isBelow]

/-! ## Any levels, one after the other -/

/-- The plan in which levels were marked one after the other. -/
def skipAll (p : Plan) (levels : List String) : Plan :=
  levels.foldl skipBelow p

theorem skipAll_concat (p : Plan) (levels : List String) (level : String) :
    p.skipAll (levels ++ [level]) = (p.skipAll levels).skipBelow level := by
  rw [skipAll, List.foldl_append]
  rfl

theorem skipAll_eq_markBelow (p : Plan) (levels : List String) :
    p.skipAll levels = p.markBelow levels := by
  induction levels using List.reverseRecOn with
  | nil => exact (markBelow_nil p).symm
  | append_singleton levels level ih => rw [skipAll_concat, ih, skipBelow_markBelow]

/-- What was marked once leaves nothing to mark. -/
theorem countBelow_skipAll (p : Plan) (h : level ∈ levels) :
    (p.skipAll levels).countBelow level = 0 := by
  rw [skipAll_eq_markBelow, countBelow, List.countP_eq_zero, markBelow]
  intro l' hl'
  obtain ⟨l, -, rfl⟩ := List.mem_map.mp hl'
  split
  · simp [isSkippedBy_skipLine]
  · rename_i hnone
    rw [Bool.not_eq_true, List.any_eq_false] at hnone
    exact hnone level h

/-- The rows of a plan in which levels were marked read as that plan. -/
theorem ofRows_skipAll (h : ofRows name rows = .ok p) (levels : List String) :
    ofRows name (p.skipAll levels).rows = .ok (p.skipAll levels) := by
  induction levels generalizing p rows with
  | nil =>
    obtain ⟨-, hrows, -⟩ := ofRows_eq_ok_iff.mp h
    exact hrows ▸ h
  | cons level levels ih => exact ih (ofRows_skipBelow h level)

/-- The entries of a plan that was read are what its rows say, one by one. -/
theorem map_ofRow_rows (h : ofRows name rows = .ok p) :
    p.rows.map PlanEntry.ofRow = p.entries.map .ok := by
  obtain ⟨-, -, hread⟩ := ofRows_eq_ok_iff.mp h
  rw [Plan.rows, entries, List.map_map, List.map_map]
  exact List.map_congr_left hread

/-- After any levels were marked in a plan that was read, its rows say what it holds, one by one,
and read as this plan.  Marking one more level changes exactly the circles below it and tells their
number, and later on there are none of them; the empty level changes nothing. -/
theorem skips_skipAll (h : ofRows name rows = .ok p) (levels : List String) :
    (p.skipAll levels).rows.map PlanEntry.ofRow = (p.skipAll levels).entries.map .ok ∧
      ofRows name (p.skipAll levels).rows = .ok (p.skipAll levels) ∧
      (∀ level ≠ "", (p.skipAll levels).Skips level ((p.skipAll levels).countBelow level)
          (p.skipAll (levels ++ [level])) ∧
        ∀ later, (p.skipAll (levels ++ level :: later)).countBelow level = 0) ∧
      p.skipAll (levels ++ [""]) = p.skipAll levels ∧ (p.skipAll levels).countBelow "" = 0 := by
  have hread := ofRows_skipAll h levels
  refine ⟨map_ofRow_rows hread, hread, fun level hlevel => ⟨?_, fun later => ?_⟩, ?_,
    countBelow_empty _⟩
  · rw [skipAll_concat]
    exact skips_skipBelow _ hlevel
  · exact countBelow_skipAll p (by simp)
  · rw [skipAll_concat]
    exact skipBelow_eq_self (countBelow_empty _)

/-- Of four circles, one lies below `1.1` and is not yet passed over; `1.10` does not. -/
theorem skips_skipAll_of_tenth_part :
    let rows := ["10.0_10.0_1000.0_circle=1.1", "11.0_11.0_500.0_circle=1.1.1.",
      "12.0_12.0_500.0_circle=1.10", "13.0_13.0_250.0_circle=1.1.2_skip", "end of search plan"]
    let marked := ["10.0_10.0_1000.0_circle=1.1", "11.0_11.0_500.0_circle=1.1.1._skip",
      "12.0_12.0_500.0_circle=1.10", "13.0_13.0_250.0_circle=1.1.2_skip", "end of search plan"]
    ∃ p, ofRows "p" rows = .ok p ∧ (p.skipAll ["1.1"]).rows = marked ∧
      p.Skips "1.1" 1 (p.skipAll ["1.1"]) ∧ (p.skipAll ["1.1", "1.1"]).rows = marked ∧
      (p.skipAll ["1.1"]).countBelow "1.1" = 0 ∧
      ofRows "p" marked = .ok (p.skipAll ["1.1"]) := by
  intro rows marked
  obtain ⟨p, hp, hrows, htwice, hone⟩ : ∃ p, ofRows "p" rows = .ok p ∧
      (p.skipAll ["1.1"]).rows = marked ∧ (p.skipAll ["1.1", "1.1"]).rows = marked ∧
      p.countBelow "1.1" = 1 :=
    ⟨_, rfl, by decide, by decide, by decide⟩
  obtain ⟨-, -, hlevel, -⟩ := skips_skipAll hp []
  obtain ⟨hskips, hrepeated⟩ := hlevel "1.1" (by decide)
  obtain ⟨-, hread, -⟩ := skips_skipAll hp ["1.1"]
  rw [hrows] at hread
  exact ⟨p, hp, hrows, hone ▸ hskips, htwice, hrepeated [], hread⟩

end Plan

end PlaceSearch
