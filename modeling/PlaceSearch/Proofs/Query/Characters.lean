import PlaceSearch.Proofs.Query.Lexeme
import PlaceSearch.Proofs.Query.Peg

/-!
# Lexemes by the grammar on characters

The rules for operators, categories and phrases take exactly one lexeme, and the blanks that a plain
rule leaves out are those between lexemes.  An operator that is a word is looked for before it is
known how long the word is; the look ahead behind it makes sure that the word ends there, so that it
is the same as to read the whole word first and to see whether it is an operator.
-/

namespace PlaceSearch.Query

open Peg

variable {s cs cs' : List Char} {m : Mode}

/-! ## Lexemes at the beginning of a text -/

/-- A text has one beginning only that has a property and is as long as it can be. -/
theorem span_unique {p : Char → Prop} {v w cs₁ cs₂ : List Char} (hv : ∀ c ∈ v, p c)
    (hw : ∀ c ∈ w, p c) (hv' : ∀ c ∈ cs₁.head?, ¬p c) (hw' : ∀ c ∈ cs₂.head?, ¬p c)
    (h : v ++ cs₁ = w ++ cs₂) : v = w ∧ cs₁ = cs₂ := by
  induction v generalizing w with
  | nil =>
    cases w with
    | nil => exact ⟨rfl, h⟩
    | cons d w =>
      subst h
      exact absurd (hw d List.mem_cons_self) (hv' d rfl)
  | cons c v ih =>
    cases w with
    | nil =>
      subst h
      exact absurd (hv c List.mem_cons_self) (hw' c rfl)
    | cons d w =>
      obtain ⟨rfl, htail⟩ := List.cons.inj h
      obtain ⟨rfl, rfl⟩ := ih (List.forall_mem_cons.mp hv).2 (List.forall_mem_cons.mp hw).2 htail
      exact ⟨rfl, rfl⟩

theorem not_isWordChar_at : ¬IsWordChar '@' := by
  decide

theorem of_symbol {c : Char} {l : Lexeme} (h : (c, l) ∈ Lexeme.symbols) :
    ¬IsWordChar c ∧ c ≠ '@' := by
  have hall : Lexeme.symbols.all fun x => !decide (IsWordChar x.1) && x.1 != '@' := by decide
  simpa using List.all_eq_true.mp hall _ h

theorem eq_of_symbol {c : Char} {l l' : Lexeme} (h : (c, l) ∈ Lexeme.symbols)
    (h' : (c, l') ∈ Lexeme.symbols) : l = l' := by
  have hall : Lexeme.symbols.all fun x => Lexeme.symbols.all fun y =>
      x.1 != y.1 || x.2 == y.2 := by decide
  simpa using List.all_eq_true.mp (List.all_eq_true.mp hall _ h) _ h'

/-- What a text begins with, by its first character. -/
theorem cases_of_begins {l : Lexeme} (h : Begins cs l cs') :
    (∃ c, cs = c :: cs' ∧ (c, l) ∈ Lexeme.symbols) ∨
      (∃ c w, cs = c :: w ++ cs' ∧ l = .ofWord (c :: w) ∧ (∀ d ∈ c :: w, IsWordChar d) ∧
        ∀ d ∈ cs'.head?, ¬IsWordChar d) ∨
      ∃ w, cs = '@' :: (w ++ '@' :: cs') ∧ l = .phrase w ∧ w ≠ [] ∧ '@' ∉ w := by
  cases h with
  | symbol hc => exact .inl ⟨_, rfl, hc⟩
  | word hne hw hend =>
    obtain ⟨c, w, rfl⟩ := List.exists_cons_of_ne_nil hne
    exact .inr (.inl ⟨c, w, rfl, rfl, hw, hend⟩)
  | phrase hne hw => exact .inr (.inr ⟨_, rfl, rfl, hne, hw⟩)

/-- A text begins with at most one lexeme. -/
theorem begins_unique {l l' : Lexeme} {cs₁ cs₂ : List Char} (h : Begins cs l cs₁)
    (h' : Begins cs l' cs₂) : l = l' ∧ cs₁ = cs₂ := by
  rcases cases_of_begins h with ⟨c, rfl, hc⟩ | ⟨c, w, rfl, rfl, hw, hend⟩ | ⟨w, rfl, rfl, -, hw⟩ <;>
    rcases cases_of_begins h' with ⟨d, heq, hd⟩ | ⟨d, v, heq, rfl, hv, hend'⟩ |
      ⟨v, heq, rfl, -, hv⟩
  · obtain ⟨rfl, rfl⟩ := List.cons.inj heq
    exact ⟨eq_of_symbol hc hd, rfl⟩
  · obtain ⟨rfl, -⟩ := List.cons.inj heq
    exact absurd (hv c List.mem_cons_self) (of_symbol hc).1
  · exact absurd (List.cons.inj heq).1 (of_symbol hc).2
  · obtain ⟨rfl, -⟩ := List.cons.inj heq
    exact absurd (hw c List.mem_cons_self) (of_symbol hd).1
  · obtain ⟨hwv, rfl⟩ := span_unique hw hv hend hend' heq
    exact ⟨congrArg _ hwv, rfl⟩
  · obtain ⟨rfl, -⟩ := List.cons.inj heq
    exact absurd (hw _ List.mem_cons_self) not_isWordChar_at
  · exact absurd (List.cons.inj heq).1.symm (of_symbol hd).2
  · obtain ⟨rfl, -⟩ := List.cons.inj heq
    exact absurd (hv _ List.mem_cons_self) not_isWordChar_at
  · have htail : w ++ '@' :: cs₁ = v ++ '@' :: cs₂ := (List.cons.inj heq).2
    obtain ⟨rfl, hrest⟩ := span_unique (p := (· ≠ '@')) (fun c hc heq => hw (heq ▸ hc))
      (fun c hc heq => hv (heq ▸ hc)) (by simp) (by simp) htail
    exact ⟨rfl, (List.cons.inj hrest).2⟩

/-! ## Characters and blanks -/

theorem isWordChar_iff_isAlphanum {c : Char} :
    IsWordChar c ↔ c.isAlphanum = true ∨ c = '_' ∨ c = '-' := by
  rw [isWordChar_iff, Token.isRunChar]
  simp [or_assoc]

theorem yields_termChar {c : Char} (hc : IsWordChar c) (cs : List Char) :
    Yields grammar s m (.rule .termChar) (c :: cs) (some ([], cs)) := by
  have hbody : Yields grammar s m (Rule.body .termChar) (c :: cs) (some ([], cs)) := by
    cases halnum : c.isAlphanum with
    | true => exact .choice_left (.one halnum)
    | false =>
      refine .choice_right (.one_fail (by simpa using halnum)) ?_
      rcases isWordChar_iff_isAlphanum.mp hc with h | rfl | rfl
      · rw [halnum] at h
        cases h
      · exact .choice_left (.char _ _ _)
      · exact .choice_right (.char_fail _ (by simp)) (.char _ _ _)
  have hcs : c :: cs = [c] ++ cs := rfl
  exact .rule hcs hbody

theorem yields_termChar_fail (h : ∀ c ∈ cs.head?, ¬IsWordChar c) :
    Yields grammar s m (.rule .termChar) cs none := by
  have hnone : ∀ c ∈ cs.head?, c.isAlphanum = false ∧ c ≠ '_' ∧ c ≠ '-' := by
    intro c hc
    simpa [isWordChar_iff_isAlphanum, not_or] using h c hc
  have hbody : Yields grammar s m (Rule.body .termChar) cs none :=
    .choice_right (.one_fail fun c hc => (hnone c hc).1) <|
      .choice_right (.char_fail _ fun c hc => (hnone c hc).2.1) <|
        .char_fail _ fun c hc => (hnone c hc).2.2
  exact .rule_fail hbody

/-- The text without the blanks at its beginning. -/
def dropWhites (cs : List Char) : List Char :=
  cs.dropWhile fun c => decide (c ∈ whites)

theorem dropWhites_cons_of_mem {c : Char} (hc : c ∈ whites) (cs : List Char) :
    dropWhites (c :: cs) = dropWhites cs := by
  simp [dropWhites, hc]

theorem dropWhites_cons_of_not_mem {c : Char} (hc : c ∉ whites) (cs : List Char) :
    dropWhites (c :: cs) = c :: cs := by
  simp [dropWhites, hc]

theorem yields_whitespace {c : Char} (hc : c ∈ whites) (cs : List Char) :
    Yields grammar s .atomic (.rule .whitespace) (c :: cs) (some ([], cs)) := by
  have hbody : Yields grammar s .atomic (Rule.body .whitespace) (c :: cs) (some ([], cs)) := by
    simp only [whites, List.mem_cons, List.not_mem_nil, or_false] at hc
    rcases hc with rfl | rfl | rfl | rfl
    · exact .choice_left (.char _ _ _)
    · exact .choice_right (.char_fail _ (by simp)) (.choice_left (.char _ _ _))
    · exact .choice_right (.char_fail _ (by simp)) <|
        .choice_right (.char_fail _ (by simp)) (.choice_left (.char _ _ _))
    · exact .choice_right (.char_fail _ (by simp)) <|
        .choice_right (.char_fail _ (by simp)) <|
          .choice_right (.char_fail _ (by simp)) (.char _ _ _)
  have hcs : c :: cs = [c] ++ cs := rfl
  exact .rule hcs hbody

theorem yields_whitespace_fail (h : ∀ c ∈ cs.head?, c ∉ whites) :
    Yields grammar s .atomic (.rule .whitespace) cs none := by
  have hnone : ∀ d ∈ whites, ∀ c ∈ cs.head?, c ≠ d := fun d hd c hc heq => h c hc (heq ▸ hd)
  have hbody : Yields grammar s .atomic (Rule.body .whitespace) cs none :=
    .choice_right (.char_fail _ (hnone _ (by simp [whites]))) <|
      .choice_right (.char_fail _ (hnone _ (by simp [whites]))) <|
        .choice_right (.char_fail _ (hnone _ (by simp [whites]))) <|
          .char_fail _ (hnone _ (by simp [whites]))
  exact .rule_fail hbody

/-- What a plain rule leaves out between two parts. -/
theorem yields_skip (cs : List Char) :
    Yields grammar s .atomic (grammar.skip .plain) cs (some ([], dropWhites cs)) := by
  refine Yields.star_of_class (fun c cs hc => ?_) (fun cs hcs => ?_) cs
  · exact yields_whitespace (of_decide_eq_true hc) cs
  · exact yields_whitespace_fail fun c hc => of_decide_eq_false (hcs c hc)

/-! ## Operators -/

theorem isWordChar_of_toLower {c : Char} (h : IsWordChar c.toLower) : IsWordChar c := by
  by_cases hupper : 'A' ≤ c ∧ c ≤ 'Z'
  · exact .inr (.inl hupper)
  · have hself : c.toLower = c := dif_neg hupper
    rwa [hself] at h

theorem forall_isWordChar_of_all {w : List Char} (h : w.all (decide <| IsWordChar ·) = true) :
    ∀ c ∈ w, IsWordChar c := fun c hc =>
  of_decide_eq_true (List.all_eq_true.mp h c hc)

theorem forall_isWordChar_of_map {v word : List Char} (h : v.map Char.toLower = word)
    (hword : ∀ c ∈ word, IsWordChar c) : ∀ c ∈ v, IsWordChar c := fun _ hc =>
  isWordChar_of_toLower (hword _ (h ▸ List.mem_map_of_mem hc))

/-- A word is there, or it is not. -/
theorem yields_word_cases (m : Mode) (word cs : List Char) :
    (∃ v cs', cs = v ++ cs' ∧ v.map Char.toLower = word ∧
      Yields grammar s m (.word word) cs (some ([], cs'))) ∨
        Yields grammar s m (.word word) cs none := by
  by_cases h : (cs.take word.length).map Char.toLower = word
  · have hcs : cs = cs.take word.length ++ cs.drop word.length :=
      (List.take_append_drop word.length cs).symm
    exact .inl ⟨_, _, hcs, h, .word hcs h⟩
  · exact .inr (.word_fail h)

/-- No word is there that begins with a letter, where none stands. -/
theorem yields_word_fail {word : List Char} (hne : word ≠ []) (hword : ∀ c ∈ word, IsWordChar c)
    (h : ∀ c ∈ cs.head?, ¬IsWordChar c) : Yields grammar s m (.word word) cs none := by
  rcases yields_word_cases (s := s) m word cs with ⟨v, cs', rfl, hv, -⟩ | hfail
  · cases v with
    | nil => exact absurd hv.symm hne
    | cons c v =>
      exact absurd (forall_isWordChar_of_map hv hword c List.mem_cons_self) (h c rfl)
  · exact hfail

/-- An operator: its rule, its word and its symbol, and the lexeme that both spell. -/
structure IsOperator (r : Rule) (word : String) (symbol : Char) (l : Lexeme) : Prop where
  kind : r.kind = .atomic
  body : r.body = Rule.operator word symbol
  letters : ∀ c ∈ word.toList, IsWordChar c
  nonempty : word.toList ≠ []
  ofWord : ∀ w, Lexeme.ofWord w = l ↔ w.map Char.toLower = word.toList
  symbol : ∀ c, (c, l) ∈ Lexeme.symbols ↔ c = symbol
  not_phrase : ∀ w, l ≠ .phrase w

theorem IsOperator.not_isBlank {r : Rule} {word : String} {symbol : Char} {l : Lexeme}
    (hop : IsOperator r word symbol l) : ¬l.IsBlank := by
  cases l with
  | phrase w => exact absurd rfl (hop.not_phrase w)
  | _ => exact id

theorem isOperator_orOp : IsOperator .orOp "or" '|' .or where
  kind := rfl
  body := rfl
  letters := forall_isWordChar_of_all (by decide)
  nonempty := by decide
  ofWord w := by
    unfold Lexeme.ofWord
    grind
  symbol c := by simp [Lexeme.symbols]
  not_phrase := nofun

theorem isOperator_andOp : IsOperator .andOp "and" '&' .and where
  kind := rfl
  body := rfl
  letters := forall_isWordChar_of_all (by decide)
  nonempty := by decide
  ofWord w := by
    unfold Lexeme.ofWord
    grind
  symbol c := by simp [Lexeme.symbols]
  not_phrase := nofun

theorem isOperator_notOp : IsOperator .notOp "not" '~' .not where
  kind := rfl
  body := rfl
  letters := forall_isWordChar_of_all (by decide)
  nonempty := by decide
  ofWord w := by
    unfold Lexeme.ofWord
    grind
  symbol c := by simp [Lexeme.symbols]
  not_phrase := nofun

section Operator

variable {r : Rule} {word : String} {symbol : Char} {l : Lexeme}

/-- The rule of an operator takes its lexeme. -/
theorem yields_operator (hop : IsOperator r word symbol l) (h : Begins cs l cs') :
    ∃ text, Yields grammar s .plain (.rule r) cs (some ([.mk r text []], cs')) := by
  have hpair : ∀ text, grammar.pairs .plain r text [] = [.mk r text []] := by
    intro text
    rw [Grammar.pairs, show grammar.kind r = .atomic from hop.kind]
    rfl
  have hbody : ∃ text, cs = text ++ cs' ∧
      Yields grammar s .atomic (Rule.operator word symbol) cs (some ([], cs')) := by
    rcases cases_of_begins h with ⟨c, rfl, hc⟩ | ⟨c, w, rfl, hl, hw, hend⟩ | ⟨w, -, hl, -⟩
    · have hletter : ∀ d ∈ (c :: cs').head?, ¬IsWordChar d := by simpa using (of_symbol hc).1
      have hfail := yields_word_fail (s := s) (m := .atomic) hop.nonempty hop.letters hletter
      obtain rfl := (hop.symbol c).mp hc
      exact ⟨[c], rfl, .choice_right (.seq_fail_left hfail) (.char _ _ _)⟩
    · have hspell := (hop.ofWord _).mp hl.symm
      exact ⟨c :: w, rfl,
        .choice_left (.seq (.word rfl hspell) .empty (.not (yields_termChar_fail hend)))⟩
    · exact absurd hl (hop.not_phrase w)
  obtain ⟨text, hcs, hyields⟩ := hbody
  refine ⟨text, hpair text ▸ .rule hcs ?_⟩
  rwa [show grammar.kind r = .atomic from hop.kind, show grammar.body r = _ from hop.body]

/-- The rule of an operator takes nothing else. -/
theorem yields_operator_fail (hop : IsOperator r word symbol l) (h : ∀ cs', ¬Begins cs l cs') :
    Yields grammar s .plain (.rule r) cs none := by
  have hbody : Yields grammar s .atomic (Rule.operator word symbol) cs none := by
    refine .choice_right ?_ (.char_fail _ fun c hc heq => ?_)
    · rcases yields_word_cases (s := s) .atomic word.toList cs with ⟨v, cs', rfl, hv, hword⟩ | hfail
      · refine .seq_fail_right hword .empty ?_
        by_cases hend : ∀ c ∈ cs'.head?, ¬IsWordChar c
        · have hne : v ≠ [] := by
            rintro rfl
            exact hop.nonempty hv.symm
          have hbegins := Begins.word hne (forall_isWordChar_of_map hv hop.letters) hend
          rw [(hop.ofWord v).mpr hv] at hbegins
          exact absurd hbegins (h cs')
        · simp only [not_forall, not_not] at hend
          obtain ⟨c, hc, hletter⟩ := hend
          obtain ⟨cs'', rfl⟩ := List.head?_eq_some_iff.mp hc
          exact .not_fail (yields_termChar hletter cs'')
      · exact .seq_fail_left hfail
    · obtain ⟨cs'', rfl⟩ := List.head?_eq_some_iff.mp hc
      exact h cs'' (.symbol ((hop.symbol c).mpr heq) cs'')
  refine .rule_fail ?_
  rwa [show grammar.kind r = .atomic from hop.kind, show grammar.body r = _ from hop.body]

end Operator

/-! ## Categories -/

theorem ofWord_ne_category_iff {w : List Char} : Lexeme.ofWord w ≠ .category w ↔
    w.map Char.toLower = "and".toList ∨ w.map Char.toLower = "or".toList ∨
      w.map Char.toLower = "not".toList := by
  unfold Lexeme.ofWord
  grind

/-- Where a word stands there is no other one that begins with another letter. -/
theorem yields_word_other {w word word' : List Char} (hw : w.map Char.toLower = word')
    (hword : word ≠ []) (hword' : word' ≠ []) (hne : word.head? ≠ word'.head?) (m : Mode)
    (cs' : List Char) : Yields grammar s m (.word word) (w ++ cs') none := by
  rcases yields_word_cases (s := s) m word (w ++ cs') with ⟨v, rest, hcs, hv, -⟩ | hfail
  · subst hv hw
    cases v with
    | nil => exact absurd rfl hword
    | cons c v =>
      cases w with
      | nil => exact absurd rfl hword'
      | cons d w => exact absurd (congrArg _ (congrArg _ (List.cons.inj hcs).1.symm)) hne
  · exact hfail

/-- A whole word that is an operator is a keyword. -/
theorem yields_keyword {w : List Char} (hend : ∀ c ∈ cs'.head?, ¬IsWordChar c)
    (h : Lexeme.ofWord w ≠ .category w) :
    Yields grammar s .atomic (.rule .keyword) (w ++ cs') (some ([], cs')) := by
  have hnot : Yields grammar s .atomic (.not (.rule .termChar)) cs' (some ([], cs')) :=
    .not (yields_termChar_fail hend)
  have hbody : Yields grammar s .atomic (Rule.body .keyword) (w ++ cs') (some ([], cs')) := by
    rcases ofWord_ne_category_iff.mp h with hw | hw | hw
    · exact .seq (.choice_left (.word rfl hw)) .empty hnot
    · have hand : Yields grammar s .atomic (.word "and".toList) (w ++ cs') none :=
        yields_word_other hw (by decide) (by decide) (by decide) _ _
      exact .seq (.choice_right hand (.choice_left (.word rfl hw))) .empty hnot
    · have hand : Yields grammar s .atomic (.word "and".toList) (w ++ cs') none :=
        yields_word_other hw (by decide) (by decide) (by decide) _ _
      have hor : Yields grammar s .atomic (.word "or".toList) (w ++ cs') none :=
        yields_word_other hw (by decide) (by decide) (by decide) _ _
      exact .seq (.choice_right hand (.choice_right hor (.word rfl hw))) .empty hnot
  exact .rule rfl hbody

/-- A whole word that is no operator is no keyword: where it begins with one it goes on. -/
theorem yields_keyword_fail {w : List Char} (hw : ∀ c ∈ w, IsWordChar c)
    (hend : ∀ c ∈ cs'.head?, ¬IsWordChar c) (h : Lexeme.ofWord w = .category w) :
    Yields grammar s .atomic (.rule .keyword) (w ++ cs') none := by
  have hnot : ∀ {word v rest : List Char}, word ∈ ["and".toList, "or".toList, "not".toList] →
      w ++ cs' = v ++ rest → v.map Char.toLower = word →
        Yields grammar s .atomic (.not (.rule .termChar)) rest none := by
    intro word v rest hword hcs hv
    have hletters : ∀ c ∈ word, IsWordChar c := by
      have hall : ["and".toList, "or".toList, "not".toList].all
          (·.all fun c => decide (IsWordChar c)) := by decide
      simpa using List.all_eq_true.mp hall word hword
    have hv' := forall_isWordChar_of_map hv hletters
    cases rest with
    | nil =>
      obtain ⟨rfl, -⟩ := span_unique hw hv' hend (by simp) hcs
      exact absurd h (ofWord_ne_category_iff.mpr (by simpa [hv] using hword))
    | cons c rest =>
      by_cases hc : IsWordChar c
      · exact .not_fail (yields_termChar hc rest)
      · obtain ⟨rfl, -⟩ := span_unique hw hv' hend (by simpa using hc) hcs
        exact absurd h (ofWord_ne_category_iff.mpr (by simpa [hv] using hword))
  have hbody : Yields grammar s .atomic (Rule.body .keyword) (w ++ cs') none := by
    rcases yields_word_cases (s := s) .atomic "and".toList (w ++ cs') with
      ⟨v, rest, hcs, hv, hand⟩ | hand
    · exact .seq_fail_right (.choice_left hand) .empty (hnot (by simp) hcs hv)
    rcases yields_word_cases (s := s) .atomic "or".toList (w ++ cs') with
      ⟨v, rest, hcs, hv, hor⟩ | hor
    · exact .seq_fail_right (.choice_right hand (.choice_left hor)) .empty (hnot (by simp) hcs hv)
    rcases yields_word_cases (s := s) .atomic "not".toList (w ++ cs') with
      ⟨v, rest, hcs, hv, hlast⟩ | hlast
    · exact .seq_fail_right (.choice_right hand (.choice_right hor hlast)) .empty
        (hnot (by simp) hcs hv)
    · exact .seq_fail_left (.choice_right hand (.choice_right hor hlast))
  exact .rule_fail hbody

/-- Where no word stands there is no keyword. -/
theorem yields_keyword_fail_of_head (h : ∀ c ∈ cs.head?, ¬IsWordChar c) :
    Yields grammar s .atomic (.rule .keyword) cs none :=
  yields_keyword_fail (w := []) nofun h (by decide)

theorem isWordChar_dropWhile {w : List Char} (hw : ∀ c ∈ w, IsWordChar c)
    (hend : ∀ c ∈ cs'.head?, ¬IsWordChar c) :
    (w ++ cs').dropWhile (fun c => decide (IsWordChar c)) = cs' := by
  rw [List.dropWhile_append_of_pos fun c hc => decide_eq_true (hw c hc)]
  cases cs' with
  | nil => rfl
  | cons c cs' => exact List.dropWhile_cons_of_neg (by simpa using hend c rfl)

/-- Where a letter stands a word begins, which is as long as it can be. -/
theorem exists_word {c : Char} (hc : IsWordChar c) (cs : List Char) :
    ∃ w cs', c :: cs = w ++ cs' ∧ w ≠ [] ∧ (∀ c ∈ w, IsWordChar c) ∧
      ∀ c ∈ cs'.head?, ¬IsWordChar c := by
  refine ⟨(c :: cs).takeWhile fun c => decide (IsWordChar c),
    (c :: cs).dropWhile fun c => decide (IsWordChar c), List.takeWhile_append_dropWhile.symm, ?_,
    fun d hd => ?_, fun d hd => ?_⟩
  · simp [hc]
  · exact of_decide_eq_true (List.all_eq_true.mp List.all_takeWhile d hd)
  · have hhead := List.head?_dropWhile_not (fun c => decide (IsWordChar c)) (c :: cs)
    rw [Option.mem_def.mp hd] at hhead
    simpa using hhead

/-- The rule for categories takes a category. -/
theorem yields_category {w : List Char} (h : Begins cs (.category w) cs') :
    Yields grammar s .plain (.rule .category) cs (some ([.mk .category w []], cs')) := by
  rcases cases_of_begins h with ⟨c, -, hc⟩ | ⟨c, v, rfl, hl, hw, hend⟩ | ⟨v, -, hl, -⟩
  · simp [Lexeme.symbols] at hc
  · obtain ⟨hcategory, rfl⟩ : Lexeme.ofWord (c :: v) = .category (c :: v) ∧ w = c :: v := by
      rcases Lexeme.ofWord_cases (c :: v) with hv | hv | hv | hv <;> rw [hv] at hl <;> cases hl
      exact ⟨hv, rfl⟩
    obtain ⟨hc, hv⟩ := List.forall_mem_cons.mp hw
    have hplus := Yields.plus_of_class (g := grammar) (s := s) (a := .rule .termChar)
      (p := fun c => decide (IsWordChar c))
      (fun c cs hc => yields_termChar (of_decide_eq_true hc) cs)
      (fun cs hcs => yields_termChar_fail fun c hc => of_decide_eq_false (hcs c hc))
      (decide_eq_true hc) (v ++ cs')
    rw [isWordChar_dropWhile hv hend] at hplus
    exact .rule rfl (.seq (.not (yields_keyword_fail hw hend hcategory)) .empty hplus)
  · cases hl

/-- The rule for categories takes nothing else. -/
theorem yields_category_fail (h : ∀ w cs', ¬Begins cs (.category w) cs') :
    Yields grammar s .plain (.rule .category) cs none := by
  have hbody : Yields grammar s .atomic (Rule.body .category) cs none := by
    by_cases hhead : ∀ c ∈ cs.head?, ¬IsWordChar c
    · exact .seq_fail_right (.not (yields_keyword_fail_of_head hhead)) .empty
        (.seq_fail_left (yields_termChar_fail hhead))
    · simp only [not_forall, not_not] at hhead
      obtain ⟨c, hc, hletter⟩ := hhead
      obtain ⟨cs'', rfl⟩ := List.head?_eq_some_iff.mp hc
      obtain ⟨w, cs', hcs, hne, hw, hend⟩ := exists_word hletter cs''
      rw [hcs]
      refine .seq_fail_left (.not_fail (yields_keyword hend fun hcategory => ?_))
      have hbegins := Begins.word hne hw hend
      rw [hcategory, ← hcs] at hbegins
      exact h w cs' hbegins
  exact .rule_fail hbody

/-! ## Phrases -/

theorem yields_inPhrase {c : Char} (hc : (c != '@') = true) (cs : List Char) :
    Yields grammar s .atomic (.seq (.not (.char '@')) (.one fun _ => true)) (c :: cs)
      (some ([], cs)) :=
  .seq (.not (.char_fail _ (by simpa using hc))) .empty (.one rfl)

theorem yields_inPhrase_fail (h : ∀ c ∈ cs.head?, (c != '@') = false) :
    Yields grammar s .atomic (.seq (.not (.char '@')) (.one fun _ => true)) cs none := by
  cases cs with
  | nil => exact .seq_fail_right (.not (.char_fail _ nofun)) .empty (.one_fail nofun)
  | cons c cs =>
    obtain rfl : c = '@' := by simpa using h c rfl
    exact .seq_fail_left (.not_fail (.char _ _ _))

theorem yields_phraseText_fail (h : ∀ c ∈ cs.head?, (c != '@') = false) :
    Yields grammar s .compound (.rule .phraseText) cs none :=
  .rule_fail (.seq_fail_left (yields_inPhrase_fail h))

/-- The text of a phrase goes up to the next `@`, or to the end. -/
theorem yields_phraseText {c : Char} (hc : (c != '@') = true) (cs : List Char) :
    Yields grammar s .compound (.rule .phraseText) (c :: cs)
      (some ([.mk .phraseText (c :: cs.takeWhile (· != '@')) []], cs.dropWhile (· != '@'))) := by
  have hplus := Yields.plus_of_class (g := grammar) (s := s) (p := (· != '@'))
    (fun c cs hc => yields_inPhrase hc cs) (fun cs hcs => yields_inPhrase_fail hcs) hc cs
  exact .rule (congrArg (c :: ·) List.takeWhile_append_dropWhile.symm) hplus

/-- The rule for phrases takes a phrase. -/
theorem yields_phrase {w : List Char} (h : Begins cs (.phrase w) cs') :
    ∃ text, Yields grammar s .plain (.rule .phrase) cs
      (some ([.mk .phrase text [.mk .phraseText w []]], cs')) := by
  rcases cases_of_begins h with ⟨c, -, hc⟩ | ⟨c, v, rfl, hl, -⟩ | ⟨v, rfl, hl, hne, hw⟩
  · simp [Lexeme.symbols] at hc
  · rcases Lexeme.ofWord_cases (c :: v) with hv | hv | hv | hv <;> rw [hv] at hl <;> cases hl
  · obtain rfl := Lexeme.phrase.inj hl
    obtain ⟨c, v, rfl⟩ := List.exists_cons_of_ne_nil hne
    rw [List.mem_cons, not_or] at hw
    have hin : ∀ d ∈ v, (d != '@') = true := fun d hd => by
      rw [bne_iff_ne]
      rintro rfl
      exact hw.2 hd
    have htext := yields_phraseText (s := s) (bne_iff_ne.mpr (Ne.symm hw.1)) (v ++ '@' :: cs')
    rw [List.takeWhile_append_of_pos hin, List.dropWhile_append_of_pos hin,
      List.takeWhile_cons_of_neg (by simp), List.dropWhile_cons_of_neg (by simp),
      List.append_nil] at htext
    have hbody : Yields grammar s .compound (Rule.body .phrase) ('@' :: (c :: v ++ '@' :: cs'))
        (some ([.mk .phraseText (c :: v) []], cs')) :=
      .seq (.char _ _ _) .empty (.seq htext .empty (.char _ _ _))
    exact ⟨'@' :: (c :: v ++ ['@']), .rule (by simp) hbody⟩

/-- The rule for phrases takes nothing else. -/
theorem yields_phrase_fail (h : ∀ w cs', ¬Begins cs (.phrase w) cs') :
    Yields grammar s .plain (.rule .phrase) cs none := by
  have hbody : Yields grammar s .compound (Rule.body .phrase) cs none := by
    cases cs with
    | nil => exact .seq_fail_left (.char_fail _ nofun)
    | cons c cs =>
      by_cases hc : c = '@'
      · subst hc
        refine .seq_fail_right (.char _ _ _) .empty ?_
        by_cases hhead : ∀ d ∈ cs.head?, (d != '@') = false
        · exact .seq_fail_left (yields_phraseText_fail hhead)
        · simp only [not_forall, Bool.not_eq_false] at hhead
          obtain ⟨d, hd, hin⟩ := hhead
          obtain ⟨ds, rfl⟩ := List.head?_eq_some_iff.mp hd
          refine .seq_fail_right (yields_phraseText hin ds) .empty (.char_fail _ fun e he heq => ?_)
          obtain ⟨es, hes⟩ := List.head?_eq_some_iff.mp he
          subst heq
          have hsplit : ds = ds.takeWhile (· != '@') ++ '@' :: es := by
            rw [← hes, List.takeWhile_append_dropWhile]
          have hno : '@' ∉ d :: ds.takeWhile (· != '@') := by
            rintro hmem
            rcases List.mem_cons.mp hmem with rfl | hmem
            · simp at hin
            · simpa using List.all_eq_true.mp List.all_takeWhile _ hmem
          have hbegins := Begins.phrase (List.cons_ne_nil _ _) hno es
          rw [List.cons_append, ← hsplit] at hbegins
          exact h _ _ hbegins
      · exact .seq_fail_left (.char_fail _ (by simpa using hc))
  exact .rule_fail hbody

/-! ## What the rules take -/

theorem of_yields_operator {r : Rule} {word : String} {symbol : Char} {l : Lexeme}
    {ps : List (Pair Rule)} (hop : IsOperator r word symbol l)
    (h : Yields grammar s .plain (.rule r) cs (some (ps, cs'))) :
    Begins cs l cs' ∧ ∃ text, ps = [.mk r text []] := by
  by_cases hbegins : ∃ cs'', Begins cs l cs''
  · obtain ⟨cs'', hbegins⟩ := hbegins
    obtain ⟨text, hyields⟩ := yields_operator (s := s) hop hbegins
    obtain ⟨rfl, rfl⟩ := Prod.mk.inj (Option.some.inj (h.unique hyields))
    exact ⟨hbegins, text, rfl⟩
  · cases h.unique (yields_operator_fail hop (not_exists.mp hbegins))

theorem of_yields_category {ps : List (Pair Rule)}
    (h : Yields grammar s .plain (.rule .category) cs (some (ps, cs'))) :
    ∃ w, Begins cs (.category w) cs' ∧ ps = [.mk .category w []] := by
  by_cases hbegins : ∃ w cs'', Begins cs (.category w) cs''
  · obtain ⟨w, cs'', hbegins⟩ := hbegins
    obtain ⟨rfl, rfl⟩ := Prod.mk.inj (Option.some.inj (h.unique (yields_category hbegins)))
    exact ⟨w, hbegins, rfl⟩
  · simp only [not_exists] at hbegins
    cases h.unique (yields_category_fail hbegins)

theorem of_yields_phrase {ps : List (Pair Rule)}
    (h : Yields grammar s .plain (.rule .phrase) cs (some (ps, cs'))) :
    ∃ w, Begins cs (.phrase w) cs' ∧ ∃ text, ps = [.mk .phrase text [.mk .phraseText w []]] := by
  by_cases hbegins : ∃ w cs'', Begins cs (.phrase w) cs''
  · obtain ⟨w, cs'', hbegins⟩ := hbegins
    obtain ⟨text, hyields⟩ := yields_phrase (s := s) hbegins
    obtain ⟨rfl, rfl⟩ := Prod.mk.inj (Option.some.inj (h.unique hyields))
    exact ⟨w, hbegins, text, rfl⟩
  · simp only [not_exists] at hbegins
    cases h.unique (yields_phrase_fail hbegins)

theorem of_yields_skip {qs : List (Pair Rule)}
    (h : Yields grammar s .atomic (grammar.skip .plain) cs (some (qs, cs'))) :
    cs' = dropWhites cs :=
  (Prod.mk.inj (Option.some.inj (h.unique (yields_skip cs)))).2

/-- A rule that leaves the mode alone takes what its body does. -/
theorem exists_yields_rule {r : Rule} (hr : r.kind.mode .plain = .plain) {ps : List (Pair Rule)}
    (h : Yields grammar s .plain r.body cs (some (ps, cs'))) :
    ∃ qs, Yields grammar s .plain (.rule r) cs (some (qs, cs')) := by
  obtain ⟨text, htext⟩ := h.suffix
  have hmode : Yields grammar s ((grammar.kind r).mode .plain) (grammar.body r) cs
      (some (ps, cs')) := by
    rwa [show (grammar.kind r).mode .plain = .plain from hr]
  exact ⟨_, .rule htext.symm hmode⟩

theorem yields_rule_fail {r : Rule} (hr : r.kind.mode .plain = .plain)
    (h : Yields grammar s .plain r.body cs none) : Yields grammar s .plain (.rule r) cs none := by
  refine .rule_fail ?_
  rwa [show (grammar.kind r).mode .plain = .plain from hr]

/-- Between the two parts of a sequence blanks are left out. -/
theorem of_yields_seq {a b : Exp Rule} {ps : List (Pair Rule)}
    (h : Yields grammar s .plain (.seq a b) cs (some (ps, cs'))) :
    ∃ ps₁ ps₂ cs₁, ps = ps₁ ++ ps₂ ∧ Yields grammar s .plain a cs (some (ps₁, cs₁)) ∧
      Yields grammar s .plain b (dropWhites cs₁) (some (ps₂, cs')) := by
  cases h with
  | seq ha hskip hb =>
    obtain rfl := of_yields_skip hskip
    exact ⟨_, _, _, rfl, ha, hb⟩

theorem of_yields_char {c : Char} {ps : List (Pair Rule)}
    (h : Yields grammar s m (.char c) cs (some (ps, cs'))) : cs = c :: cs' ∧ ps = [] := by
  cases h with
  | one hc => exact ⟨congrArg (· :: cs') (eq_of_beq hc), rfl⟩

theorem of_yields_start {ps : List (Pair Rule)}
    (h : Yields grammar s m .start cs (some (ps, cs'))) : ps = [] ∧ cs' = cs := by
  cases h
  exact ⟨rfl, rfl⟩

theorem of_yields_endOfInput {ps : List (Pair Rule)}
    (h : Yields grammar s m (.rule .endOfInput) cs (some (ps, cs'))) : cs = [] := by
  cases h with
  | rule hcs hbody =>
    change Yields grammar s _ .finish cs _ at hbody
    cases hbody
    rfl

theorem cuts_dropWhites (cs : List Char) : Cuts cs [] (dropWhites cs) := by
  induction cs with
  | nil => exact .stop []
  | cons c cs ih =>
    by_cases hc : c ∈ whites
    · rw [dropWhites_cons_of_mem hc]
      exact .white hc ih
    · rw [dropWhites_cons_of_not_mem hc]
      exact .stop _

theorem length_dropWhites_le (cs : List Char) : (dropWhites cs).length ≤ cs.length :=
  (List.dropWhile_suffix _).length_le

theorem not_mem_whites_of_isWordChar {c : Char} (hc : IsWordChar c) : c ∉ whites := by
  intro hmem
  have hall : whites.all fun c => !decide (IsWordChar c) := by decide
  simpa [hc] using List.all_eq_true.mp hall c hmem

theorem not_mem_whites_of_symbol {c : Char} {l : Lexeme} (h : (c, l) ∈ Lexeme.symbols) :
    c ∉ whites := by
  have hall : Lexeme.symbols.all fun x => !decide (x.1 ∈ whites) := by decide
  simpa using List.all_eq_true.mp hall _ h

/-- No lexeme begins with a blank. -/
theorem dropWhites_of_begins {l : Lexeme} (h : Begins cs l cs') : dropWhites cs = cs := by
  rcases cases_of_begins h with ⟨c, rfl, hc⟩ | ⟨c, w, rfl, -, hw, -⟩ | ⟨w, rfl, -⟩
  · exact dropWhites_cons_of_not_mem (not_mem_whites_of_symbol hc) _
  · exact dropWhites_cons_of_not_mem (not_mem_whites_of_isWordChar (hw c List.mem_cons_self)) _
  · exact dropWhites_cons_of_not_mem (by decide) _

theorem exists_begins_of_cuts {l : Lexeme} {ls : List Lexeme} (h : Cuts cs (l :: ls) cs') :
    ∃ cs₁, Begins (dropWhites cs) l cs₁ ∧ Cuts cs₁ ls cs' := by
  generalize hls : l :: ls = ls' at h
  induction h with
  | stop => cases hls
  | white hc _ ih =>
    rw [dropWhites_cons_of_mem hc]
    exact ih hls
  | next hl h =>
    obtain ⟨rfl, rfl⟩ := List.cons.inj hls
    rw [dropWhites_of_begins hl]
    exact ⟨_, hl, h⟩

theorem dropWhites_of_cuts (h : Cuts cs [] []) : dropWhites cs = [] := by
  generalize hls : ([] : List Lexeme) = ls at h
  generalize hend : ([] : List Char) = cs' at h
  induction h with
  | stop =>
    subst hend
    rfl
  | white hc _ ih =>
    rw [dropWhites_cons_of_mem hc]
    exact ih hls hend
  | next => cases hls

/-- What a repetition takes is taken by one part after the other, with blanks before each. -/
theorem star_induction {a : Exp Rule} {motive : List Char → List (Pair Rule) → List Char → Prop}
    (stop : ∀ cs, motive cs [] cs)
    (next : ∀ {cs cs₁ cs₂ cs₃ ps rs}, Cuts cs [] cs₁ → cs₁ <:+ cs →
      Yields grammar s .plain a cs₁ (some (ps, cs₂)) → motive cs₂ rs cs₃ →
        motive cs (ps ++ rs) cs₃) {ps : List (Pair Rule)}
    (h : Yields grammar s .plain (.star a) cs (some (ps, cs'))) : motive cs ps cs' := by
  cases h with
  | star_none => exact stop cs
  | star_some ha hagain =>
    refine next (.stop cs) (List.suffix_refl cs) ha ?_
    refine hagain.again_induction (fun _ _ => stop _) fun hskip ha hrest => ?_
    obtain rfl := of_yields_skip hskip
    exact next (cuts_dropWhites _) (List.dropWhile_suffix _) ha hrest

end PlaceSearch.Query
