import PlaceSearch.Text.Blank
import PlaceSearch.Text.Lower

/-!
# Laws of the lower-case mapping

Lower case is stable: what the mapping gives it leaves alone.  For single characters this is a
fact about the table of runs: no small letter is itself a letter of a run, and none is a
blank, an `@` or a capital letter of ASCII.  Two checks over the table establish it: the small
letters are looked up one by one in `capitals`, the set of all letters as a mask, and
`LowerRun.avoids` compares a run with a range of characters.

Blanks and `@` keep their form and are never cased, so they do not matter for the two forms
of the small sigma either.  Hence blanks may be cut off a text before or after it is put in
lower case.
-/

namespace PlaceSearch.Text

/-! ## Two checks over the table -/

namespace LowerRun

/-- The code point of the small letter of a letter. -/
def target (r : LowerRun) (n : Nat) : Nat :=
  (n + r.shift).toNat

/-- The letters of a run. -/
def letters (r : LowerRun) : List Nat :=
  (List.range ((r.last - r.first) / r.step + 1)).map (r.first + r.step * ·)

/-- Whether no small letter of the run lies in a range. -/
def avoids (r : LowerRun) (range : Range) : Bool :=
  Nat.blt (r.target r.last) range.1 || Nat.blt range.2 (r.target r.first)

theorem holds_iff {r : LowerRun} {n : Nat} :
    r.holds n = true ↔ (r.first ≤ n ∧ n ≤ r.last) ∧ (n - r.first) % r.step = 0 := by
  simp [holds]

theorem target_le_target {r : LowerRun} {m n : Nat} (h : m ≤ n) : r.target m ≤ r.target n := by
  simp only [target]
  omega

theorem mem_letters {r : LowerRun} {n : Nat} (hn : r.holds n = true) : n ∈ r.letters := by
  obtain ⟨⟨hfirst, hlast⟩, hstep⟩ := holds_iff.mp hn
  refine List.mem_map.mpr ⟨(n - r.first) / r.step, ?_, ?_⟩
  · rw [List.mem_range, Nat.lt_succ_iff]
    exact Nat.div_le_div_right (Nat.sub_le_sub_right hlast r.first)
  · rw [Nat.mul_div_cancel' (Nat.dvd_of_mod_eq_zero hstep), Nat.add_sub_of_le hfirst]

theorem not_mem_of_avoids {r : LowerRun} {range : Range} (h : r.avoids range = true) {n : Nat}
    (hn : r.holds n = true) : ¬(range.1 ≤ r.target n ∧ r.target n ≤ range.2) := by
  obtain ⟨⟨hfirst, hlast⟩, -⟩ := holds_iff.mp hn
  have hlo : r.target r.first ≤ r.target n := target_le_target hfirst
  have hhi : r.target n ≤ r.target r.last := target_le_target hlast
  simp only [avoids, Bool.or_eq_true, Nat.blt_eq] at h
  omega

end LowerRun

/-- Where no small letter lies: the blanks, `@` and the capital letters of ASCII, the dotted
capital I, and what is no character. -/
def avoidedRanges : List Range :=
  blankRanges ++ [(0x40, 0x5A), (0x130, 0x130), (0xD800, 0xDFFF)]

/-- A set of numbers as a mask. -/
def maskOfAll : List Nat → Nat
  | [] => 0
  | n :: ns => 1 <<< n ||| maskOfAll ns

theorem testBit_maskOfAll {n : Nat} {ns : List Nat} :
    (maskOfAll ns).testBit n = true ↔ n ∈ ns := by
  induction ns with
  | nil => simp [maskOfAll]
  | cons m ns ih =>
    rw [maskOfAll, Nat.one_shiftLeft, Nat.testBit_or, Bool.or_eq_true, ih, Nat.testBit_two_pow,
      decide_eq_true_iff, List.mem_cons, eq_comm]

/-- The letters of all runs. -/
def capitals : Nat :=
  maskOfAll (lowerRuns.flatMap LowerRun.letters)

theorem testBit_capitals {r : LowerRun} (hr : r ∈ lowerRuns) {n : Nat} (hn : r.holds n = true) :
    capitals.testBit n = true :=
  testBit_maskOfAll.mpr (List.mem_flatMap.mpr ⟨r, hr, LowerRun.mem_letters hn⟩)

/-- Whether the small letters of a run are characters, no letters of a run, and in none of the
avoided ranges. -/
def LowerRun.isSound (r : LowerRun) : Bool :=
  Nat.blt (r.target r.last) 0x110000 && avoidedRanges.all r.avoids &&
    r.letters.all fun n => !capitals.testBit (r.target n)

set_option maxRecDepth 10000 in
theorem all_isSound : lowerRuns.all LowerRun.isSound = true := by
  decide +kernel

/-! ## Single characters -/

theorem toNat_ofNat {n : Nat} (h : n.isValidChar) : (Char.ofNat n).toNat = n := by
  rw [Char.ofNat, dif_pos h]
  rfl

theorem exists_eq_ofNat {bound : Nat} {c : Char} (hc : c.toNat < bound) :
    ∃ n < bound, c = Char.ofNat n :=
  ⟨c.toNat, hc, (Char.ofNat_toNat c).symm⟩

/-- What the table gives for a code point: no letter of the table, none of the avoided
characters, and a character. -/
theorem target_spec {r : LowerRun} (hr : r ∈ lowerRuns) {n : Nat} (hn : r.holds n = true) :
    (∀ s ∈ lowerRuns, s.holds (r.target n) = false) ∧
      (∀ range ∈ avoidedRanges, ¬(range.1 ≤ r.target n ∧ r.target n ≤ range.2)) ∧
        (Char.ofNat (r.target n)).toNat = r.target n := by
  have hsound := List.all_eq_true.mp all_isSound r hr
  simp only [LowerRun.isSound, Bool.and_eq_true, Nat.blt_eq] at hsound
  obtain ⟨⟨hlt, havoid⟩, hsmall⟩ := hsound
  have hrange : ∀ range ∈ avoidedRanges, ¬(range.1 ≤ r.target n ∧ r.target n ≤ range.2) :=
    fun range hrange => LowerRun.not_mem_of_avoids (List.all_eq_true.mp havoid range hrange) hn
  have hle : r.target n ≤ r.target r.last :=
    LowerRun.target_le_target (LowerRun.holds_iff.mp hn).1.2
  have hsurrogate := hrange (0xD800, 0xDFFF) (by decide)
  refine ⟨fun s hs => ?_, hrange, toNat_ofNat ?_⟩
  · have hout := List.all_eq_true.mp hsmall n (LowerRun.mem_letters hn)
    rw [← Bool.not_eq_true]
    intro h
    rw [testBit_capitals hs h] at hout
    cases hout
  · simp only [Nat.isValidChar]
    omega

/-- The four cases of the mapping. -/
theorem lowerChar_cases (c : Char) :
    (c.toNat < 0x80 ∧ lowerChar c = [c.toLower]) ∨
      (c.toNat = 0x130 ∧ lowerChar c = ['i', Char.ofNat 0x307]) ∨
        (∃ r ∈ lowerRuns, r.holds c.toNat = true ∧
          lowerChar c = [Char.ofNat (r.target c.toNat)]) ∨
          lowerChar c = [c] := by
  rw [lowerChar]
  split
  · next h => exact .inl ⟨h, rfl⟩
  · split
    · next h => exact .inr (.inl ⟨h, rfl⟩)
    · split
      · next r hr =>
        have hn : r.holds c.toNat = true := by
          simpa using List.find?_some hr
        exact .inr (.inr (.inl ⟨r, List.mem_of_find?_eq_some hr, hn, rfl⟩))
      · exact .inr (.inr (.inr rfl))

theorem lowerChar_ascii {c : Char} (hc : c.toNat < 0x80) :
    (lowerChar c).all fun d =>
      lowerChar d == [d] && (!Range.covers avoidedRanges d || d == c) := by
  have hall : ∀ n < 0x80, (lowerChar (Char.ofNat n)).all fun d =>
      lowerChar d == [d] && (!Range.covers avoidedRanges d || d == Char.ofNat n) := by
    decide +kernel
  obtain ⟨n, hn, rfl⟩ := exists_eq_ofNat hc
  exact hall n hn

theorem lowerChar_dotted :
    ['i', Char.ofNat 0x307].all fun d =>
      lowerChar d == [d] && !Range.covers avoidedRanges d := by
  decide

theorem lowerChar_of_not_capital {c : Char} (hc : c.toNat < 0x80)
    (havoid : Range.covers avoidedRanges c = false) : lowerChar c = [c] := by
  have hcapital : ¬(0x40 ≤ c.toNat ∧ c.toNat ≤ 0x5A) := by
    rw [← Bool.not_eq_true, Range.covers_iff] at havoid
    exact fun h => havoid ⟨(0x40, 0x5A), by decide, h⟩
  have hval : ¬(c.val ≥ 'A'.val ∧ c.val ≤ 'Z'.val) := by
    rintro ⟨hfirst, hlast⟩
    have hfirst' : 0x41 ≤ c.toNat := UInt32.le_iff_toNat_le.mp hfirst
    exact hcapital ⟨by omega, UInt32.le_iff_toNat_le.mp hlast⟩
  have hlower : c.toLower = c := dif_neg hval
  rw [lowerChar, if_pos hc, hlower]

theorem lowerChar_eq_self {c : Char} (havoid : Range.covers avoidedRanges c = false)
    (htable : ∀ r ∈ lowerRuns, r.holds c.toNat = false) : lowerChar c = [c] := by
  by_cases hc : c.toNat < 0x80
  · exact lowerChar_of_not_capital hc havoid
  · have hdotted : c.toNat ≠ 0x130 := by
      intro hc
      rw [← Bool.not_eq_true, Range.covers_iff] at havoid
      exact havoid ⟨(0x130, 0x130), by decide, by simp [hc]⟩
    have hnone : lowerRuns.find? (·.holds c.toNat) = none := by
      rw [List.find?_eq_none]
      intro r hr
      simp [htable r hr]
    rw [lowerChar, if_neg hc, if_neg hdotted, hnone]

/-- The mapping of single characters is stable: it leaves alone what it gives. -/
theorem lowerChar_of_mem_lowerChar {c d : Char} (h : d ∈ lowerChar c) : lowerChar d = [d] := by
  rcases lowerChar_cases c with ⟨hc, hlower⟩ | ⟨hc, hlower⟩ | ⟨r, hr, hn, hlower⟩ | hlower
  · have hall := List.all_eq_true.mp (lowerChar_ascii hc)
    simpa using (Bool.and_eq_true_iff.mp (hall d h)).1
  · rw [hlower] at h
    simpa using (Bool.and_eq_true_iff.mp (List.all_eq_true.mp lowerChar_dotted d h)).1
  · obtain ⟨htable, havoid, hchar⟩ := target_spec hr hn
    rw [hlower, List.mem_singleton] at h
    subst h
    apply lowerChar_eq_self
    · rw [← Bool.not_eq_true, Range.covers_iff, hchar]
      rintro ⟨range, hrange, hmem⟩
      exact havoid range hrange hmem
    · rw [hchar]
      exact htable
  · rw [hlower, List.mem_singleton] at h
    rwa [h]

/-- A character that no small letter lies among is the small form of itself only. -/
theorem eq_of_mem_lowerChar {c d : Char} (h : d ∈ lowerChar c)
    (hd : Range.covers avoidedRanges d = true) : d = c := by
  rcases lowerChar_cases c with ⟨hc, hlower⟩ | ⟨hc, hlower⟩ | ⟨r, hr, hn, hlower⟩ | hlower
  · have hall := List.all_eq_true.mp (lowerChar_ascii hc)
    simpa [hd] using (Bool.and_eq_true_iff.mp (hall d h)).2
  · rw [hlower] at h
    simpa [hd] using (Bool.and_eq_true_iff.mp (List.all_eq_true.mp lowerChar_dotted d h)).2
  · obtain ⟨-, havoid, hchar⟩ := target_spec hr hn
    rw [hlower, List.mem_singleton] at h
    subst h
    obtain ⟨range, hrange, hmem⟩ := Range.covers_iff.mp hd
    rw [hchar] at hmem
    exact absurd hmem (havoid range hrange)
  · rwa [hlower, List.mem_singleton] at h

/-- The blank characters. -/
def blanks : List Char :=
  (blankRanges.flatMap fun r => List.range' r.1 (r.2 + 1 - r.1)).map Char.ofNat

theorem mem_blanks {c : Char} (h : isBlank c = true) : c ∈ blanks := by
  obtain ⟨r, hr, hfirst, hlast⟩ := Range.covers_iff.mp h
  refine List.mem_map.mpr ⟨c.toNat, List.mem_flatMap.mpr ⟨r, hr, ?_⟩, Char.ofNat_toNat c⟩
  rw [List.mem_range'_1]
  omega

theorem isCased_of_isBlank {c : Char} (h : isBlank c = true) : isCased c = false := by
  have hall : blanks.all fun c => !isCased c := by decide
  simpa using List.all_eq_true.mp hall c (mem_blanks h)

theorem lowerChar_of_isBlank {c : Char} (h : isBlank c = true) : lowerChar c = [c] := by
  have hall : blanks.all fun c => lowerChar c == [c] := by decide
  simpa using List.all_eq_true.mp hall c (mem_blanks h)

/-- Lower case makes no blanks. -/
theorem isBlank_of_mem_lowerChar {c d : Char} (h : d ∈ lowerChar c) (hd : isBlank d = true) :
    d = c := by
  apply eq_of_mem_lowerChar h
  obtain ⟨r, hr, hmem⟩ := Range.covers_iff.mp hd
  exact Range.covers_iff.mpr ⟨r, List.mem_append_left _ hr, hmem⟩

theorem lowerChar_ne_nil (c : Char) : lowerChar c ≠ [] := by
  rcases lowerChar_cases c with ⟨-, h⟩ | ⟨-, h⟩ | ⟨r, -, -, h⟩ | h <;> simp [h]

theorem lowerChar_at : lowerChar '@' = ['@'] :=
  rfl

theorem isCased_at : isCased '@' = false := by
  decide

/-- Lower case makes no `@`. -/
theorem eq_at_of_mem_lowerChar {c : Char} (h : '@' ∈ lowerChar c) : c = '@' :=
  (eq_of_mem_lowerChar h (by decide)).symm

/-! ## Texts -/

/-- The small form of a character between its neighbours. -/
def lowerAt (before : List Char) (c : Char) (after : List Char) : List Char :=
  if c = 'Σ' then (if isWordFinal before after then ['ς'] else ['σ']) else lowerChar c

theorem lowerFrom_cons (before : List Char) (c : Char) (cs : List Char) :
    lowerFrom before (c :: cs) = lowerAt before c cs ++ lowerFrom (c :: before) cs :=
  rfl

theorem lowerChar_sigma : lowerChar 'Σ' = ['σ'] ∧ lowerChar 'ς' = ['ς'] :=
  ⟨rfl, rfl⟩

theorem mem_lowerAt {before after : List Char} {c d : Char} (h : d ∈ lowerAt before c after) :
    d ∈ lowerChar c ∨ (c = 'Σ' ∧ d = 'ς') := by
  rw [lowerAt] at h
  split at h
  · next hc =>
    split at h
    · exact .inr ⟨hc, by simpa using h⟩
    · rw [hc, lowerChar_sigma.1]
      exact .inl h
  · exact .inl h

theorem lowerAt_ne_nil (before : List Char) (c : Char) (after : List Char) :
    lowerAt before c after ≠ [] := by
  rw [lowerAt]
  split
  · split <;> simp
  · exact lowerChar_ne_nil c

theorem mem_lowerFrom {before cs : List Char} {d : Char} (h : d ∈ lowerFrom before cs) :
    ∃ c ∈ cs, d ∈ lowerChar c ∨ (c = 'Σ' ∧ d = 'ς') := by
  induction cs generalizing before with
  | nil => simp [lowerFrom] at h
  | cons c cs ih =>
    rw [lowerFrom_cons, List.mem_append] at h
    rcases h with h | h
    · exact ⟨c, List.mem_cons_self, mem_lowerAt h⟩
    · obtain ⟨c', hc', hd⟩ := ih h
      exact ⟨c', List.mem_cons_of_mem _ hc', hd⟩

theorem lowerChar_of_mem_lowerFrom {before cs : List Char} {d : Char}
    (h : d ∈ lowerFrom before cs) : lowerChar d = [d] := by
  obtain ⟨c, -, h | ⟨-, rfl⟩⟩ := mem_lowerFrom h
  · exact lowerChar_of_mem_lowerChar h
  · exact lowerChar_sigma.2

/-- A text of small letters keeps its form; no capital sigma is among them. -/
theorem lowerFrom_eq_self {before cs : List Char} (h : ∀ c ∈ cs, lowerChar c = [c]) :
    lowerFrom before cs = cs := by
  induction cs generalizing before with
  | nil => rfl
  | cons c cs ih =>
    obtain ⟨hc, hcs⟩ := List.forall_mem_cons.mp h
    have hsigma : c ≠ 'Σ' := by
      rintro rfl
      simp [lowerChar_sigma.1] at hc
    rw [lowerFrom_cons, ih hcs, lowerAt, if_neg hsigma, hc, List.singleton_append]

/-- Lower case is stable. -/
theorem lower_lower (s : String) : lower (lower s) = lower s := by
  rw [lower, lower, String.toList_ofList,
    lowerFrom_eq_self fun c hc => lowerChar_of_mem_lowerFrom hc]

theorem lower_eq_empty_iff {s : String} : lower s = "" ↔ s = "" := by
  constructor
  · intro h
    cases hs : s.toList with
    | nil => exact String.toList_eq_nil_iff.mp hs
    | cons c cs =>
      rw [lower, hs, lowerFrom_cons, ← String.toList_inj, String.toList_ofList] at h
      exact absurd (List.append_eq_nil_iff.mp h).1 (lowerAt_ne_nil [] c cs)
  · rintro rfl
    rfl

/-- Lower case adds an `@` to no text. -/
theorem at_not_mem_lowerFrom {before cs : List Char} (h : '@' ∉ cs) :
    '@' ∉ lowerFrom before cs := by
  intro hmem
  obtain ⟨c, hc, hlower | ⟨-, hsigma⟩⟩ := mem_lowerFrom hmem
  · rw [eq_at_of_mem_lowerChar hlower] at hc
    exact h hc
  · exact absurd hsigma (by decide)

/-! ## Parts of a text -/

/-- Characters without case, put behind a context, do not change what is seen first. -/
theorem nextIsCased_append {xs ys : List Char} (h : ∀ y ∈ ys, isCased y = false) :
    nextIsCased (xs ++ ys) = nextIsCased xs := by
  have hys : nextIsCased ys = false := by
    rw [nextIsCased]
    split
    · next c cs heq =>
      have hmem : c ∈ ys.dropWhile isCaseIgnorable := by simp [heq]
      exact h c ((List.dropWhile_suffix _).subset hmem)
    · rfl
  induction xs with
  | nil => exact hys
  | cons x xs ih =>
    cases hx : isCaseIgnorable x with
    | true => simpa [nextIsCased, hx] using ih
    | false => simp [nextIsCased, hx]

/-- The characters in front of a text without case may be forgotten. -/
theorem lowerFrom_before {before ys cs : List Char} (h : ∀ y ∈ ys, isCased y = false) :
    lowerFrom (before ++ ys) cs = lowerFrom before cs := by
  induction cs generalizing before with
  | nil => rfl
  | cons c cs ih =>
    rw [lowerFrom_cons, lowerFrom_cons, ← List.cons_append, ih, lowerAt, lowerAt, isWordFinal,
      isWordFinal, nextIsCased_append h]

/-- A text splits in front of characters without case. -/
theorem lowerFrom_append {before xs ys : List Char} (h : ∀ y ∈ ys, isCased y = false) :
    lowerFrom before (xs ++ ys) =
      lowerFrom before xs ++ lowerFrom (xs.reverse ++ before) ys := by
  induction xs generalizing before with
  | nil => rfl
  | cons x xs ih =>
    rw [List.cons_append, lowerFrom_cons, lowerFrom_cons, ih, lowerAt, lowerAt, isWordFinal,
      isWordFinal, nextIsCased_append h, List.reverse_cons, List.append_assoc,
      List.append_assoc, List.singleton_append]

/-- What comes first does not change the rest but for its context. -/
theorem lowerFrom_suffix (before xs ys : List Char) :
    lowerFrom (xs.reverse ++ before) ys <:+ lowerFrom before (xs ++ ys) := by
  induction xs generalizing before with
  | nil => exact List.suffix_rfl
  | cons x xs ih =>
    have hxs := ih (x :: before)
    rw [List.cons_append, lowerFrom_cons, List.reverse_cons, List.append_assoc,
      List.singleton_append]
    exact hxs.trans (List.suffix_append _ _)

end PlaceSearch.Text
