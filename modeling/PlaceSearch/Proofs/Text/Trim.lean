import PlaceSearch.Proofs.Text.Lower

/-!
# Laws of trimming

A text is blanks, its trimmed text, and blanks again; and this determines the trimmed text.
Lower case keeps blanks and makes none, so that it does not matter whether a text is trimmed
or put in lower case first.
-/

namespace PlaceSearch.Text

/-- No blank stands at an end of the text. -/
structure IsTrimmed (cs : List Char) : Prop where
  head : ∀ c ∈ cs.head?, isBlank c = false
  last : ∀ c ∈ cs.getLast?, isBlank c = false

theorem trimStart_append {bs cs : List Char} (hbs : ∀ b ∈ bs, isBlank b = true)
    (hcs : ∀ c ∈ cs.head?, isBlank c = false) : trimStart (bs ++ cs) = cs := by
  rw [trimStart, List.dropWhile_append_of_pos hbs]
  cases cs with
  | nil => rfl
  | cons c cs => simp [hcs c rfl]

theorem exists_trimStart (cs : List Char) :
    ∃ bs, (∀ b ∈ bs, isBlank b = true) ∧ cs = bs ++ trimStart cs ∧
      ∀ c ∈ (trimStart cs).head?, isBlank c = false := by
  refine ⟨cs.takeWhile isBlank, List.all_eq_true.mp List.all_takeWhile,
    List.takeWhile_append_dropWhile.symm, fun c hc => ?_⟩
  have hhead := List.head?_dropWhile_not isBlank cs
  rw [trimStart, Option.mem_def] at hc
  simpa [hc] using hhead

/-- Blanks at both ends of a trimmed text are what trimming takes away. -/
theorem trim_eq_of_isTrimmed {front cs back : List Char} (h : IsTrimmed cs)
    (hfront : ∀ b ∈ front, isBlank b = true) (hback : ∀ b ∈ back, isBlank b = true) :
    trim (String.ofList (front ++ cs ++ back)) = String.ofList cs := by
  rw [trim, String.toList_ofList, List.append_assoc]
  congr 1
  have hreverse : ∀ b ∈ back.reverse, isBlank b = true := fun b hb =>
    hback b (List.mem_reverse.mp hb)
  rcases List.eq_nil_or_concat cs with rfl | ⟨cs', c, hcs⟩
  · have hall : ∀ b ∈ front ++ ([] ++ back), isBlank b = true := by
      intro b hb
      rcases List.mem_append.mp hb with hb | hb
      · exact hfront b hb
      · exact hback b hb
    have hstart : trimStart (front ++ ([] ++ back)) = [] := by
      rw [← List.append_nil (front ++ ([] ++ back))]
      exact trimStart_append hall (by simp)
    rw [hstart]
    rfl
  · have hhead : ∀ b ∈ (cs ++ back).head?, isBlank b = false := by
      have hne : cs.head? ≠ none := by simp [hcs]
      rw [List.head?_append, Option.or_of_isSome (Option.isSome_iff_ne_none.mpr hne)]
      exact h.head
    have hlast : ∀ b ∈ cs.reverse.head?, isBlank b = false := by
      rw [List.head?_reverse]
      exact h.last
    rw [trimStart_append hfront hhead, trimEnd, List.reverse_append,
      trimStart_append hreverse hlast, List.reverse_reverse]

/-- A text is its trimmed text between blanks. -/
theorem exists_trim (s : String) :
    ∃ front back, (∀ b ∈ front, isBlank b = true) ∧ (∀ b ∈ back, isBlank b = true) ∧
      s.toList = front ++ (trim s).toList ++ back ∧ IsTrimmed (trim s).toList := by
  obtain ⟨front, hfront, happend, hhead⟩ := exists_trimStart s.toList
  obtain ⟨back, hback, hreverse, hlast⟩ := exists_trimStart (trimStart s.toList).reverse
  have hsplit : trimStart s.toList = trimEnd (trimStart s.toList) ++ back.reverse := by
    rw [trimEnd, ← List.reverse_append, ← hreverse, List.reverse_reverse]
  rw [trim, String.toList_ofList]
  refine ⟨front, back.reverse, hfront, fun b hb => hback b (List.mem_reverse.mp hb), ?_, ?_, ?_⟩
  · rw [List.append_assoc, ← hsplit, ← happend]
  · intro c hc
    refine hhead c ?_
    rw [Option.mem_def] at hc ⊢
    rw [hsplit, List.head?_append, hc, Option.some_or]
  · rw [trimEnd, List.getLast?_reverse]
    exact hlast

theorem isTrimmed_trim (s : String) : IsTrimmed (trim s).toList := by
  obtain ⟨front, back, -, -, -, h⟩ := exists_trim s
  exact h

/-- A trimmed text is left alone. -/
theorem trim_eq_self {s : String} (h : IsTrimmed s.toList) : trim s = s := by
  have hnone : ∀ b ∈ ([] : List Char), isBlank b = true := by simp
  simpa using trim_eq_of_isTrimmed h hnone hnone

theorem trim_trim (s : String) : trim (trim s) = trim s :=
  trim_eq_self (isTrimmed_trim s)

/-- Nothing is left of a text of blanks only. -/
theorem trim_eq_empty_iff {s : String} : trim s = "" ↔ ∀ c ∈ s.toList, isBlank c = true := by
  constructor
  · intro h
    obtain ⟨front, back, hfront, hback, hsplit, -⟩ := exists_trim s
    rw [h, String.toList_empty, List.append_nil] at hsplit
    rw [hsplit]
    exact List.forall_mem_append.mpr ⟨hfront, hback⟩
  · intro h
    have hempty : IsTrimmed [] := ⟨nofun, nofun⟩
    have hnone : ∀ b ∈ ([] : List Char), isBlank b = true := nofun
    have htrim := trim_eq_of_isTrimmed hempty h hnone
    rwa [List.append_nil, List.append_nil, String.ofList_toList] at htrim

/-! ## Trimming and lower case -/

theorem isBlank_of_mem_lowerAt {before after : List Char} {c d : Char}
    (h : d ∈ lowerAt before c after) (hc : isBlank c = false) : isBlank d = false := by
  rw [← Bool.not_eq_true]
  intro hd
  rcases mem_lowerAt h with h | ⟨-, rfl⟩
  · rw [isBlank_of_mem_lowerChar h hd, hc] at hd
    cases hd
  · exact absurd hd (by decide)

/-- Lower case keeps the ends of a text free of blanks. -/
theorem IsTrimmed.lowerFrom {cs : List Char} (h : IsTrimmed cs) :
    IsTrimmed (lowerFrom [] cs) := by
  rcases List.eq_nil_or_concat cs with rfl | ⟨cs', c, hlast⟩
  · exact h
  · constructor
    · intro d hd
      cases cs with
      | nil => simp at hlast
      | cons a cs =>
        obtain ⟨b, bs, hb⟩ := List.exists_cons_of_ne_nil (lowerAt_ne_nil [] a cs)
        rw [lowerFrom_cons, hb, List.cons_append, List.head?_cons, Option.mem_some] at hd
        subst hd
        exact isBlank_of_mem_lowerAt (by rw [hb]; exact List.mem_cons_self) (h.head a rfl)
    · intro d hd
      obtain ⟨us, hus⟩ := lowerFrom_suffix [] cs' [c]
      rw [hlast, List.concat_eq_append, ← hus, lowerFrom_cons, Text.lowerFrom,
        List.append_nil] at hd
      have hsome := Option.isSome_iff_ne_none.mpr
        (mt List.getLast?_eq_none_iff.mp (lowerAt_ne_nil (cs'.reverse ++ []) c []))
      rw [List.getLast?_append, Option.or_of_isSome hsome] at hd
      refine isBlank_of_mem_lowerAt (List.mem_of_getLast? hd) (h.last c ?_)
      simp [hlast]

theorem lowerAt_of_isBlank {c : Char} (h : isBlank c = true) (before after : List Char) :
    lowerAt before c after = [c] := by
  have hsigma : c ≠ 'Σ' := by
    rintro rfl
    exact absurd h (by decide)
  rw [lowerAt, if_neg hsigma, lowerChar_of_isBlank h]

theorem lowerFrom_blanks_append {bs : List Char} (h : ∀ b ∈ bs, isBlank b = true)
    (before cs : List Char) :
    lowerFrom before (bs ++ cs) = bs ++ lowerFrom (bs.reverse ++ before) cs := by
  induction bs generalizing before with
  | nil => rfl
  | cons b bs ih =>
    obtain ⟨hb, hbs⟩ := List.forall_mem_cons.mp h
    rw [List.cons_append, lowerFrom_cons, lowerAt_of_isBlank hb, ih hbs, List.reverse_cons,
      List.append_assoc, List.singleton_append, List.singleton_append, List.cons_append]

/-- Blanks may be cut off before or after a text is put in lower case. -/
theorem trim_lower (s : String) : trim (lower s) = lower (trim s) := by
  obtain ⟨front, back, hfront, hback, hsplit, htrim⟩ := exists_trim s
  have huncased : ∀ b ∈ front.reverse, isCased b = false := fun b hb =>
    isCased_of_isBlank (hfront b (List.mem_reverse.mp hb))
  have hself : ∀ before, lowerFrom before back = back := fun before =>
    lowerFrom_eq_self fun b hb => lowerChar_of_isBlank (hback b hb)
  have hmiddle : lowerFrom (front.reverse ++ []) (trim s).toList =
      lowerFrom [] (trim s).toList := by
    rw [List.append_nil, ← List.nil_append front.reverse, lowerFrom_before huncased]
  rw [lower, lower, hsplit, lowerFrom_append fun b hb => isCased_of_isBlank (hback b hb), hself,
    lowerFrom_blanks_append hfront, hmiddle, trim_eq_of_isTrimmed htrim.lowerFrom hfront hback]

end PlaceSearch.Text
