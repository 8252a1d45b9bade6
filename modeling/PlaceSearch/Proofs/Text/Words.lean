import Mathlib.Data.List.TakeWhile
import PlaceSearch.Proofs.Text.Trim

/-!
# Laws of words

A text is put into a standard form by writing single blanks between its words.  This is read
here character by character: blanks are dropped, and one blank is written in front of the next
word if there were any.  Blanks at the ends do not matter for the result, and neither does it
matter whether a text is put in lower case before or after: no blank is cased or passed over
when the forms of the small sigma are told apart, so a word is put in lower case by itself.
-/

namespace PlaceSearch.Text

/-- The words of a text with single blanks between them. -/
def squeeze (s : String) : String :=
  " ".intercalate (words s)

/-- The characters of a text without its blanks, but with one blank in front of every word that
follows some; `gap` says whether blanks came before the text. -/
def squeezeFrom (gap : Bool) : List Char → List Char
  | [] => []
  | c :: cs =>
    if isBlank c then squeezeFrom true cs
    else (if gap then [' '] else []) ++ c :: squeezeFrom false cs

theorem squeezeFrom_of_isBlank {c : Char} (h : isBlank c = true) (gap : Bool) (cs : List Char) :
    squeezeFrom gap (c :: cs) = squeezeFrom true cs :=
  if_pos h

theorem squeezeFrom_of_not_isBlank {c : Char} (h : isBlank c = false) (gap : Bool)
    (cs : List Char) :
    squeezeFrom gap (c :: cs) = (if gap then [' '] else []) ++ c :: squeezeFrom false cs :=
  if_neg (by simp [h])

/-! ## The words one after the other -/

theorem wordsFrom_ne_nil {run : List Char} (h : run ≠ []) (cs : List Char) :
    wordsFrom run cs ≠ [] := by
  induction cs generalizing run with
  | nil => simp [wordsFrom, h]
  | cons c cs ih =>
    rw [wordsFrom]
    split
    · simp [h]
    · exact ih (List.cons_ne_nil c run)

theorem wordsFrom_eq_nil_iff {cs : List Char} : wordsFrom [] cs = [] ↔ trimStart cs = [] := by
  induction cs with
  | nil => simp [wordsFrom, trimStart]
  | cons c cs ih =>
    cases hc : isBlank c with
    | true => simpa [wordsFrom, trimStart, hc] using ih
    | false =>
      have hne := wordsFrom_ne_nil (List.cons_ne_nil c []) cs
      simp [wordsFrom, trimStart, hc, hne]

/-- Behind blanks a blank is written if a word follows. -/
theorem squeezeFrom_true (cs : List Char) :
    squeezeFrom true cs =
      if trimStart cs = [] then [] else ' ' :: squeezeFrom false (trimStart cs) := by
  induction cs with
  | nil => rfl
  | cons c cs ih =>
    cases hc : isBlank c with
    | true =>
      have htrim : trimStart (c :: cs) = trimStart cs := List.dropWhile_cons_of_pos hc
      rw [squeezeFrom_of_isBlank hc, ih, htrim]
    | false =>
      have htrim : trimStart (c :: cs) = c :: cs := List.dropWhile_cons_of_neg (by simp [hc])
      rw [htrim, if_neg (List.cons_ne_nil c cs), squeezeFrom_of_not_isBlank hc,
        squeezeFrom_of_not_isBlank hc]
      rfl

/-- The words with single blanks between them, behind the characters of an unfinished word. -/
theorem intercalate_wordsFrom (run cs : List Char) :
    [' '].intercalate (wordsFrom run cs) =
      if run = [] then squeezeFrom false (trimStart cs)
      else run.reverse ++ squeezeFrom false cs := by
  induction cs generalizing run with
  | nil => cases run <;> simp [wordsFrom, trimStart, squeezeFrom]
  | cons c cs ih =>
    cases hc : isBlank c with
    | true =>
      have htrim : trimStart (c :: cs) = trimStart cs := List.dropWhile_cons_of_pos hc
      have hwords := ih []
      rw [if_pos rfl] at hwords
      rw [wordsFrom, if_pos hc, htrim]
      cases run with
      | nil => exact hwords
      | cons d run =>
        rw [if_neg (by simp), if_neg (List.cons_ne_nil d run), squeezeFrom_of_isBlank hc,
          squeezeFrom_true]
        by_cases hnil : trimStart cs = []
        · rw [wordsFrom_eq_nil_iff.mpr hnil, if_pos hnil, List.append_nil]
          exact List.intercalate_singleton
        · rw [if_neg hnil, List.intercalate_cons_of_ne_nil (mt wordsFrom_eq_nil_iff.mp hnil),
            hwords, List.append_assoc, List.singleton_append]
    | false =>
      have htrim : trimStart (c :: cs) = c :: cs := List.dropWhile_cons_of_neg (by simp [hc])
      rw [wordsFrom, if_neg (by simp [hc]), ih, if_neg (List.cons_ne_nil c run), htrim,
        squeezeFrom_of_not_isBlank hc]
      cases run <;> simp

theorem toList_squeeze (s : String) :
    (squeeze s).toList = squeezeFrom false (trimStart s.toList) := by
  have hlists : (words s).map String.toList = wordsFrom [] s.toList := by
    simp [words]
  rw [squeeze, String.toList_intercalate, hlists]
  exact (intercalate_wordsFrom [] s.toList).trans (if_pos rfl)

/-! ## The ends of a text -/

theorem mem_squeezeFrom {gap : Bool} {cs : List Char} {d : Char} (h : d ∈ squeezeFrom gap cs) :
    d ∈ cs ∨ d = ' ' := by
  induction cs generalizing gap with
  | nil => cases h
  | cons c cs ih =>
    cases hc : isBlank c with
    | true =>
      rw [squeezeFrom_of_isBlank hc] at h
      exact (ih h).imp_left (List.mem_cons_of_mem c)
    | false =>
      rw [squeezeFrom_of_not_isBlank hc, List.mem_append, List.mem_cons] at h
      rcases h with h | rfl | h
      · cases gap <;> simp at h
        exact .inr h
      · exact .inl List.mem_cons_self
      · exact (ih h).imp_left (List.mem_cons_of_mem c)

/-- What is written begins with the words of the text, but for a blank in front. -/
theorem exists_squeezeFrom (gap : Bool) (cs : List Char) :
    ∃ front, (∀ b ∈ front, isBlank b = true) ∧
      squeezeFrom gap cs = front ++ squeezeFrom false (trimStart cs) := by
  have hblank : ∀ b ∈ [' '], isBlank b = true := List.forall_mem_singleton.mpr rfl
  cases gap with
  | true =>
    rw [squeezeFrom_true]
    by_cases hnil : trimStart cs = []
    · exact ⟨[], by simp, by simp [hnil, squeezeFrom]⟩
    · exact ⟨[' '], hblank, by simp [hnil]⟩
  | false =>
    cases cs with
    | nil => exact ⟨[], by simp, rfl⟩
    | cons c cs =>
      cases hc : isBlank c with
      | true =>
        have htrim : trimStart (c :: cs) = trimStart cs := List.dropWhile_cons_of_pos hc
        rw [squeezeFrom_of_isBlank hc, squeezeFrom_true, htrim]
        by_cases hnil : trimStart cs = []
        · exact ⟨[], by simp, by simp [hnil, squeezeFrom]⟩
        · exact ⟨[' '], hblank, by simp [hnil]⟩
      | false =>
        have htrim : trimStart (c :: cs) = c :: cs := List.dropWhile_cons_of_neg (by simp [hc])
        exact ⟨[], by simp, by rw [htrim, List.nil_append]⟩

theorem getLast?_squeezeFrom (gap : Bool) (cs : List Char) :
    ∀ c ∈ (squeezeFrom gap cs).getLast?, isBlank c = false := by
  induction cs generalizing gap with
  | nil => simp [squeezeFrom]
  | cons c cs ih =>
    cases hc : isBlank c with
    | true =>
      rw [squeezeFrom_of_isBlank hc]
      exact ih true
    | false =>
      intro d hd
      rw [squeezeFrom_of_not_isBlank hc, List.getLast?_append, List.getLast?_cons,
        Option.some_or, Option.mem_some] at hd
      cases hlast : (squeezeFrom false cs).getLast? with
      | none =>
        rw [hlast, Option.getD_none] at hd
        rwa [← hd]
      | some e =>
        rw [hlast, Option.getD_some] at hd
        rw [← hd]
        exact ih false e hlast

/-- No blank stands at an end of words with single blanks between them. -/
theorem isTrimmed_squeeze (s : String) : IsTrimmed (squeeze s).toList := by
  rw [toList_squeeze]
  refine ⟨fun c hc => ?_, getLast?_squeezeFrom false _⟩
  obtain ⟨-, -, -, hhead⟩ := exists_trimStart s.toList
  cases htrim : trimStart s.toList with
  | nil =>
    rw [htrim] at hc
    cases hc
  | cons d ds =>
    have hd : isBlank d = false := hhead d (by simp [htrim])
    rw [htrim, squeezeFrom_of_not_isBlank hd] at hc
    simp only [Bool.false_eq_true, if_false, List.nil_append, List.head?_cons,
      Option.mem_some] at hc
    rwa [← hc]

theorem squeezeFrom_append_blanks {bs : List Char} (h : ∀ b ∈ bs, isBlank b = true)
    (gap : Bool) (cs : List Char) : squeezeFrom gap (cs ++ bs) = squeezeFrom gap cs := by
  induction cs generalizing gap with
  | nil =>
    induction bs generalizing gap with
    | nil => rfl
    | cons b bs ih =>
      obtain ⟨hb, hbs⟩ := List.forall_mem_cons.mp h
      rw [List.nil_append, squeezeFrom_of_isBlank hb]
      exact ih hbs true
  | cons c cs ih =>
    rw [List.cons_append, squeezeFrom, squeezeFrom, ih, ih]

theorem trimStart_of_isTrimmed {cs : List Char} (h : IsTrimmed cs) : trimStart cs = cs := by
  have hnone : ∀ b ∈ ([] : List Char), isBlank b = true := by simp
  exact trimStart_append hnone h.head

theorem trimStart_eq_nil_of_blanks {cs : List Char} (h : ∀ c ∈ cs, isBlank c = true) :
    trimStart cs = [] :=
  List.dropWhile_eq_nil_iff.mpr h

/-- Blanks at the ends of a text do not matter for its words. -/
theorem squeeze_trim (s : String) : squeeze (trim s) = squeeze s := by
  obtain ⟨front, back, hfront, hback, hsplit, htrim⟩ := exists_trim s
  have htext : squeezeFrom false (trimStart s.toList) = squeezeFrom false (trim s).toList := by
    rw [hsplit, List.append_assoc]
    by_cases hnil : (trim s).toList = []
    · have hall : ∀ b ∈ front ++ back, isBlank b = true := fun b hb =>
        (List.mem_append.mp hb).elim (hfront b) (hback b)
      rw [hnil, List.nil_append, trimStart_eq_nil_of_blanks hall]
    · have hhead : ∀ c ∈ ((trim s).toList ++ back).head?, isBlank c = false := by
        have hsome : (trim s).toList.head?.isSome = true := by simpa using hnil
        rw [List.head?_append, Option.or_of_isSome hsome]
        exact htrim.head
      rw [trimStart_append hfront hhead, squeezeFrom_append_blanks hback]
  rw [← String.toList_inj, toList_squeeze, toList_squeeze, htext, trimStart_of_isTrimmed htrim]

/-- In front of a character that is no blank, what is written ends with blanks. -/
theorem exists_squeezeFrom_append (gap : Bool) (cs : List Char) {c : Char}
    (hc : isBlank c = false) (ds : List Char) :
    ∃ back, (∀ b ∈ back, b = ' ') ∧ (squeezeFrom gap cs ++ back = [] → cs = []) ∧
      squeezeFrom gap (cs ++ c :: ds) =
        squeezeFrom gap cs ++ back ++ c :: squeezeFrom false ds := by
  induction cs generalizing gap with
  | nil =>
    refine ⟨if gap then [' '] else [], ?_, fun _ => rfl, ?_⟩
    · cases gap <;> simp
    · exact squeezeFrom_of_not_isBlank hc gap ds
  | cons a cs ih =>
    cases ha : isBlank a with
    | true =>
      obtain ⟨back, hback, -, happend⟩ := ih true
      rw [List.cons_append, squeezeFrom_of_isBlank ha, squeezeFrom_of_isBlank ha]
      refine ⟨back, hback, fun hnil => ?_, happend⟩
      -- a blank was read, so that one is written: in front of a word, or here
      rw [hnil, List.nil_append, squeezeFrom_true] at happend
      have hne : trimStart (cs ++ c :: ds) ≠ [] := by
        intro htrim
        have hblank := List.dropWhile_eq_nil_iff.mp htrim c (by simp)
        rw [hc] at hblank
        cases hblank
      rw [if_neg hne] at happend
      obtain ⟨rfl, -⟩ := List.cons.inj happend
      exact absurd hc (by decide)
    | false =>
      obtain ⟨back, hback, -, happend⟩ := ih false
      refine ⟨back, hback, by simp [squeezeFrom_of_not_isBlank ha], ?_⟩
      rw [List.cons_append, squeezeFrom_of_not_isBlank ha, squeezeFrom_of_not_isBlank ha, happend]
      simp

/-- What is written for a part of a text is its words, but for blanks around them. -/
theorem trim_squeezeFrom_append (gap : Bool) (cs : List Char) {back : List Char}
    (hback : ∀ b ∈ back, b = ' ') :
    trim (String.ofList (squeezeFrom gap cs ++ back)) = squeeze (String.ofList cs) := by
  obtain ⟨front, hfront, hwords⟩ := exists_squeezeFrom gap cs
  have hlist : squeezeFrom gap cs = front ++ (squeeze (String.ofList cs)).toList := by
    rw [hwords, toList_squeeze, String.toList_ofList]
  have hblank : ∀ b ∈ back, isBlank b = true := fun b hb => by
    rw [hback b hb]
    decide
  rw [hlist, trim_eq_of_isTrimmed (isTrimmed_squeeze _) hfront hblank, String.ofList_toList]

/-! ## Lower case -/

theorem isCaseIgnorable_of_isBlank {c : Char} (h : isBlank c = true) :
    isCaseIgnorable c = false := by
  have hall : blanks.all fun c => !isCaseIgnorable c := by decide +kernel
  simpa using List.all_eq_true.mp hall c (mem_blanks h)

set_option maxRecDepth 10000 in
theorem isCaseIgnorable_at : isCaseIgnorable '@' = false := by
  decide

theorem nextIsCased_of_isBlank {c : Char} (h : isBlank c = true) (cs : List Char) :
    nextIsCased (c :: cs) = false := by
  simp [nextIsCased, isCaseIgnorable_of_isBlank h, isCased_of_isBlank h]

/-- One more character in front of two contexts that look alike. -/
theorem nextIsCased_cons {xs ys : List Char} (c : Char) (h : nextIsCased xs = nextIsCased ys) :
    nextIsCased (c :: xs) = nextIsCased (c :: ys) := by
  cases hc : isCaseIgnorable c with
  | true => simpa [nextIsCased, hc] using h
  | false => simp [nextIsCased, hc]

theorem nextIsCased_squeezeFrom (cs : List Char) :
    nextIsCased (squeezeFrom false cs) = nextIsCased cs := by
  induction cs with
  | nil => rfl
  | cons c cs ih =>
    cases hc : isBlank c with
    | true =>
      rw [squeezeFrom_of_isBlank hc, nextIsCased_of_isBlank hc, squeezeFrom_true]
      split
      · rfl
      · exact nextIsCased_of_isBlank (by decide) _
    | false =>
      rw [squeezeFrom_of_not_isBlank hc]
      exact nextIsCased_cons c ih

theorem squeezeFrom_append_of_not_isBlank {w : List Char} (hne : w ≠ [])
    (hw : ∀ c ∈ w, isBlank c = false) (gap : Bool) (cs : List Char) :
    squeezeFrom gap (w ++ cs) = (if gap then [' '] else []) ++ (w ++ squeezeFrom false cs) := by
  induction w generalizing gap with
  | nil => exact absurd rfl hne
  | cons c w ih =>
    obtain ⟨hc, hw⟩ := List.forall_mem_cons.mp hw
    rw [List.cons_append, squeezeFrom_of_not_isBlank hc]
    by_cases hnil : w = []
    · rw [hnil]
      rfl
    · rw [ih hnil hw]
      simp

/-- Blanks may be squeezed before or after a text is put in lower case, as long as the contexts
in front look alike. -/
theorem lowerFrom_squeezeFrom (gap : Bool) {before before' : List Char} (cs : List Char)
    (h : nextIsCased ((if gap then [' '] else []) ++ before) = nextIsCased before') :
    lowerFrom before (squeezeFrom gap cs) = squeezeFrom gap (lowerFrom before' cs) := by
  induction cs generalizing gap before before' with
  | nil => rfl
  | cons c cs ih =>
    have hspace : isBlank ' ' = true := by decide
    cases hc : isBlank c with
    | true =>
      have hcontext : nextIsCased ((if true then [' '] else []) ++ before) =
          nextIsCased (c :: before') :=
        (nextIsCased_of_isBlank hspace before).trans (nextIsCased_of_isBlank hc before').symm
      rw [squeezeFrom_of_isBlank hc, lowerFrom_cons, lowerAt_of_isBlank hc, List.singleton_append,
        squeezeFrom_of_isBlank hc]
      exact ih true hcontext
    | false =>
      have hword : ∀ d ∈ lowerAt before' c cs, isBlank d = false := fun d hd =>
        isBlank_of_mem_lowerAt hd hc
      have hfirst : ∀ front, nextIsCased front = nextIsCased before' →
          lowerFrom front (c :: squeezeFrom false cs) =
            lowerAt before' c cs ++ squeezeFrom false (lowerFrom (c :: before') cs) := by
        intro front hfront
        have hrest : lowerFrom (c :: front) (squeezeFrom false cs) =
            squeezeFrom false (lowerFrom (c :: before') cs) := ih false (nextIsCased_cons c hfront)
        rw [lowerFrom_cons, hrest, lowerAt, lowerAt, isWordFinal, isWordFinal, hfront,
          nextIsCased_squeezeFrom]
      rw [squeezeFrom_of_not_isBlank hc, lowerFrom_cons before',
        squeezeFrom_append_of_not_isBlank (lowerAt_ne_nil before' c cs) hword]
      cases gap with
      | true =>
        simp only [if_true, List.singleton_append] at h ⊢
        rw [lowerFrom_cons, lowerAt_of_isBlank hspace, List.singleton_append, hfirst _ h]
      | false => exact hfirst before h

/-- A character that is neither cased nor passed over hides what is behind it. -/
theorem nextIsCased_append_cons {b : Char} (hb : isCased b = false)
    (hb' : isCaseIgnorable b = false) (xs ys : List Char) :
    nextIsCased (xs ++ b :: ys) = nextIsCased xs := by
  induction xs with
  | nil => simp [nextIsCased, hb, hb']
  | cons x xs ih => exact nextIsCased_cons x ih

/-- Such a character splits a text. -/
theorem lowerFrom_append_cons {b : Char} (hb : isCased b = false)
    (hb' : isCaseIgnorable b = false) (before xs ys : List Char) :
    lowerFrom before (xs ++ b :: ys) =
      lowerFrom before xs ++ lowerFrom (xs.reverse ++ before) (b :: ys) := by
  induction xs generalizing before with
  | nil => rfl
  | cons x xs ih =>
    rw [List.cons_append, lowerFrom_cons, lowerFrom_cons, ih, lowerAt, lowerAt, isWordFinal,
      isWordFinal, nextIsCased_append_cons hb hb', List.reverse_cons, List.append_assoc,
      List.append_assoc, List.singleton_append]

/-- Contexts that look alike give the same small forms. -/
theorem lowerFrom_congr {before before' : List Char}
    (h : nextIsCased before = nextIsCased before') (cs : List Char) :
    lowerFrom before cs = lowerFrom before' cs := by
  induction cs generalizing before before' with
  | nil => rfl
  | cons c cs ih =>
    rw [lowerFrom_cons, lowerFrom_cons, ih (nextIsCased_cons c h), lowerAt, lowerAt, isWordFinal,
      isWordFinal, h]

/-- Words are put in lower case one by one. -/
theorem lower_squeeze (s : String) : lower (squeeze s) = squeeze (lower s) := by
  have htrim := isTrimmed_trim s
  have hlower : trimStart (lowerFrom [] (trim s).toList) = lowerFrom [] (trim s).toList :=
    trimStart_of_isTrimmed htrim.lowerFrom
  have hcontext : nextIsCased ((if false then [' '] else []) ++ []) = nextIsCased [] := rfl
  rw [← squeeze_trim s, ← squeeze_trim (lower s), trim_lower, ← String.toList_inj, lower,
    String.toList_ofList, toList_squeeze, toList_squeeze, lower, String.toList_ofList,
    trimStart_of_isTrimmed htrim, hlower, lowerFrom_squeezeFrom false _ hcontext]

end PlaceSearch.Text
