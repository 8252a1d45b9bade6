import Mathlib.Data.List.TakeWhile
import Mathlib.Logic.Function.Basic
import PlaceSearch.Plan.Generate
import PlaceSearch.Proofs.Decimal.Fixed
import PlaceSearch.Proofs.Plan.Row

/-!
# Levels in breadth-first order

Counted breadth first from zero, the seven parts of a row `n` are the rows `7 * n + 1` to
`7 * n + 7`.  So the place of a row tells its level, no two rows share one, and a row comes before
all rows below it.
-/

namespace PlaceSearch

open PlanEntry

/-- The level of the row at a place. -/
def levelAt : Nat → String
  | 0 => "1"
  | n + 1 => levelAt (n / 7) ++ "." ++ toString (n % 7 + 1)
termination_by n => n
decreasing_by omega

theorem levelAt_zero : levelAt 0 = "1" := by
  rw [levelAt]

theorem levelAt_succ (n : Nat) :
    levelAt (n + 1) = levelAt (n / 7) ++ "." ++ toString (n % 7 + 1) := by
  rw [levelAt]

theorem levelAt_part {i j : Nat} (hpos : 1 ≤ j) (hle : j ≤ 7) :
    levelAt (7 * i + j) = levelAt i ++ "." ++ toString j := by
  obtain ⟨j, rfl⟩ := Nat.exists_eq_add_of_le' hpos
  have hdiv : (7 * i + j) / 7 = i := by omega
  have hmod : (7 * i + j) % 7 = j := by omega
  rw [← Nat.add_assoc, levelAt_succ, hdiv, hmod]

/-! ## The characters of a level -/

/-- The digit that names a part. -/
def partDigit (i : Nat) : Char :=
  Nat.digitChar (i + 1)

theorem toList_toString_part {i : Nat} (h : i < 7) : (toString (i + 1)).toList = [partDigit i] := by
  have hall : ∀ i < 7, (toString (i + 1)).toList = [partDigit i] := by decide
  exact hall i h

theorem partDigit_injOn {i j : Nat} (hi : i < 7) (hj : j < 7) (h : partDigit i = partDigit j) :
    i = j := by
  have hall : ∀ i < 7, ∀ j < 7, partDigit i = partDigit j → i = j := by decide
  exact hall i hi j hj h

theorem isLevelChar_partDigit {i : Nat} (h : i < 7) :
    isLevelChar (partDigit i) = true ∧ partDigit i ≠ '.' := by
  have hall : ∀ i < 7, isLevelChar (partDigit i) = true ∧ partDigit i ≠ '.' := by decide
  exact hall i h

theorem toList_levelAt_succ (n : Nat) :
    (levelAt (n + 1)).toList = (levelAt (n / 7)).toList ++ ['.', partDigit (n % 7)] := by
  rw [levelAt_succ, String.toList_append, String.toList_append,
    toList_toString_part (Nat.mod_lt n (by decide))]
  simp

/-- A level consists of dots and digits and ends in a digit. -/
theorem exists_toList_levelAt (n : Nat) : ∃ cs d, (levelAt n).toList = cs ++ [d] ∧ d ≠ '.' ∧
    ∀ c ∈ cs ++ [d], isLevelChar c = true := by
  induction n using levelAt.induct with
  | case1 =>
    refine ⟨[], '1', by rw [levelAt_zero]; rfl, by decide, fun c hc => ?_⟩
    rw [List.mem_singleton.mp hc]
    decide
  | case2 n ih =>
    obtain ⟨cs, d, hlevel, -, hcs⟩ := ih
    obtain ⟨hchar, hdot⟩ := isLevelChar_partDigit (Nat.mod_lt n (by decide))
    refine ⟨cs ++ [d] ++ ['.'], partDigit (n % 7), ?_, hdot, ?_⟩
    · rw [toList_levelAt_succ, hlevel]
      simp
    · intro c hc
      rcases List.mem_append.mp hc with hc | hc
      · rcases List.mem_append.mp hc with hc | hc
        · exact hcs c hc
        · rw [List.mem_singleton.mp hc]
          decide
      · rwa [List.mem_singleton.mp hc]

/-! ## Levels and the order of rows -/

/-- No two rows share a level. -/
theorem levelAt_injective : Function.Injective levelAt := by
  intro a
  induction a using Nat.strong_induction_on with
  | h a ih =>
    intro b h
    have hlist : (levelAt a).toList = (levelAt b).toList := by rw [h]
    have hlen : ∀ n, 1 < (levelAt (n + 1)).toList.length := by
      intro n
      rw [toList_levelAt_succ]
      simp
    cases a with
    | zero =>
      cases b with
      | zero => rfl
      | succ b =>
        have := hlen b
        rw [← hlist, levelAt_zero] at this
        exact absurd this (by decide)
    | succ a =>
      cases b with
      | zero =>
        have := hlen a
        rw [hlist, levelAt_zero] at this
        exact absurd this (by decide)
      | succ b =>
        rw [toList_levelAt_succ, toList_levelAt_succ] at hlist
        obtain ⟨hparent, hpart⟩ := List.append_inj' hlist rfl
        have hdiv := ih (a / 7) (by omega) (String.toList_inj.mp hparent)
        have hmod := partDigit_injOn (Nat.mod_lt a (by decide)) (Nat.mod_lt b (by decide))
          (by simpa using hpart)
        omega

/-- What a part lies below is the level it is a part of, or lies above that. -/
theorem eq_or_exists_of_part {upper level rest : List Char} {d : Char} (hd : d ≠ '.')
    (h : level ++ ['.', d] = upper ++ '.' :: rest) :
    upper = level ∨ ∃ rest', level = upper ++ '.' :: rest' := by
  rcases List.append_eq_append_iff.mp h with ⟨more, hupper, hrest⟩ | ⟨more, hlevel, hrest⟩
  · rcases more with _ | ⟨c, more⟩
    · exact .inl (by simpa using hupper)
    · obtain ⟨-, htail⟩ := List.cons.inj hrest
      rcases more with _ | ⟨c', more⟩
      · exact absurd (List.cons.inj htail).1 hd
      · have hlen := congrArg List.length htail
        simp at hlen
  · rcases more with _ | ⟨c, more⟩
    · exact .inl (by simpa using hlevel.symm)
    · obtain ⟨rfl, -⟩ := List.cons.inj hrest
      exact .inr ⟨more, hlevel⟩

/-- A row comes before all rows below it. -/
theorem lt_of_levelBelow {a b : Nat} (h : levelBelow (levelAt b) (levelAt a) = true) : a < b := by
  obtain ⟨hne, rest, hrest⟩ := levelBelow_iff.mp h
  clear h
  induction b using levelAt.induct generalizing rest with
  | case1 =>
    have hlen := congrArg List.length hrest
    have hpos : 0 < (levelAt a).toList.length :=
      List.length_pos_iff.mpr fun h => hne (String.toList_eq_nil_iff.mp h)
    simp [levelAt_zero] at hlen hpos
    omega
  | case2 b ih =>
    rw [toList_levelAt_succ] at hrest
    have hd := (isLevelChar_partDigit (Nat.mod_lt b (by decide))).2
    rcases eq_or_exists_of_part hd hrest with heq | ⟨rest', hrest'⟩
    · have := levelAt_injective (String.toList_inj.mp heq)
      omega
    · have := ih rest' hrest'
      omega

/-! ## The level that is read from a row -/

/-- The word that introduces a level is not found before the only equals sign is complete. -/
theorem startsWith?_circle_eq_none {c : Char} {pre : List Char} (hpre : '=' ∉ c :: pre)
    (rest : List Char) :
    Text.startsWith? "circle=".toList (c :: pre ++ "circle=".toList ++ rest) = none := by
  by_contra h
  obtain ⟨r, hr⟩ := Option.ne_none_iff_exists'.mp h
  have htext := congrArg (List.takeWhile (· != '=')) (Text.startsWith?_eq_some_iff.mp hr)
  have hword : ∀ pre rest : List Char, '=' ∉ pre →
      (pre ++ "circle=".toList ++ rest).takeWhile (· != '=') = pre ++ "circle".toList := by
    intro pre rest hpre
    have hall : ∀ x ∈ pre, (x != '=') = true := by
      intro x hx
      exact bne_iff_ne.mpr fun h => hpre (h ▸ hx)
    rw [List.append_assoc, List.takeWhile_append_of_pos hall]
    rfl
  have hlen := congrArg List.length ((hword _ rest hpre).symm.trans htext)
  rw [← List.nil_append "circle=".toList, hword [] r List.not_mem_nil] at hlen
  simp at hlen

theorem levelRun?_of_startsWith {cs ds : List Char} {d : Char}
    (h : Text.startsWith? "circle=".toList cs = some (d :: ds)) (hd : isLevelChar d = true) :
    levelRun? cs = some (d :: ds.takeWhile isLevelChar) := by
  cases cs with
  | nil => cases h
  | cons c cs =>
    rw [levelRun?, h]
    exact if_pos hd

/-- The level of a row is what follows the word that introduces it. -/
theorem levelRun?_append_circle {pre level : List Char} (hpre : '=' ∉ pre) (hne : level ≠ [])
    (hlevel : ∀ c ∈ level, isLevelChar c = true) :
    levelRun? (pre ++ "circle=".toList ++ level) = some level := by
  induction pre with
  | nil =>
    obtain ⟨d, ds, rfl⟩ := List.exists_cons_of_ne_nil hne
    have hstart : Text.startsWith? "circle=".toList ("circle=".toList ++ d :: ds) =
        some (d :: ds) := Text.startsWith?_eq_some_iff.mpr rfl
    rw [List.nil_append, levelRun?_of_startsWith hstart (hlevel d List.mem_cons_self),
      List.takeWhile_eq_self_iff.mpr fun c hc => hlevel c (List.mem_cons_of_mem d hc)]
  | cons c pre ih =>
    have hstart := startsWith?_circle_eq_none hpre level
    rw [List.cons_append, List.cons_append] at hstart ⊢
    rw [levelRun?, hstart]
    exact ih fun h => hpre (List.mem_cons_of_mem c h)

theorem not_mem_fixed (places : Nat) (x : Float) : '=' ∉ (Decimal.fixed places x).toList := by
  intro h
  exact absurd (Decimal.of_mem_fixed h) (by decide)

/-- The level that is written in a row is read from it. -/
theorem levelOf?_renderRow (c : Circle) (n : Nat) :
    levelOf? (renderRow c (levelAt n)) = some (levelAt n) := by
  obtain ⟨cs, d, hlevel, hdot, hchars⟩ := exists_toList_levelAt n
  have hrow : (renderRow c (levelAt n)).toList =
      (Decimal.fixed 6 c.center.lat ++ "_" ++ Decimal.fixed 6 c.center.lng ++ "_"
        ++ Decimal.fixed 1 c.radius ++ "_").toList ++ "circle=".toList ++ (cs ++ [d]) := by
    simp only [renderRow, String.toList_append, hlevel]
    simp
  have hpre : '=' ∉ (Decimal.fixed 6 c.center.lat ++ "_" ++ Decimal.fixed 6 c.center.lng ++ "_"
      ++ Decimal.fixed 1 c.radius ++ "_").toList := by
    simp only [String.toList_append, List.mem_append, not_or]
    exact ⟨⟨⟨⟨⟨not_mem_fixed _ _, by decide⟩, not_mem_fixed _ _⟩, by decide⟩,
      not_mem_fixed _ _⟩, by decide⟩
  rw [levelOf?, hrow, levelRun?_append_circle hpre (by simp) hchars]
  have hrun : ((cs ++ [d]).reverse.dropWhile (· == '.')).reverse = cs ++ [d] := by
    simp [hdot]
  simp only [hrun]
  rw [if_neg (by simp), ← hlevel, String.ofList_toList]

end PlaceSearch
