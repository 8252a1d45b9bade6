import PlaceSearch.Proofs.Query.Reading

/-!
# Every text has an outcome

The grammar on characters comes to an end with every text: it takes it or it fails.  Operators,
categories and phrases are decided by what the text begins with.  A repetition goes on only behind
an operator, so behind a shorter text each time, and a query in parentheses is shorter than the
one around it; everything else is put together from smaller parts.

With this the three ways to say what a query is agree: a text is read by the parser, taken by the
grammar, or cut into lexemes that can be produced, and all three make the same expression.
-/

namespace PlaceSearch.Query

open Peg

variable {s cs cs' : List Char}

/-- An expression takes a text from its beginning on, or it fails there. -/
def Decided (s : List Char) (a : Exp Rule) (cs : List Char) : Prop :=
  ∃ o, Yields grammar s .plain a cs o

section Decided

variable {a b : Exp Rule} {r : Rule} {word : String} {symbol : Char} {l : Lexeme}

/-! ## Parts -/

theorem decided_char (c : Char) (cs : List Char) : Decided s (.char c) cs := by
  by_cases h : ∀ d ∈ cs.head?, d ≠ c
  · exact ⟨none, .char_fail _ h⟩
  · simp only [not_forall, not_not] at h
    obtain ⟨d, hd, rfl⟩ := h
    obtain ⟨ds, rfl⟩ := List.head?_eq_some_iff.mp hd
    exact ⟨_, .char _ d ds⟩

theorem decided_operator (hop : IsOperator r word symbol l) (cs : List Char) :
    Decided s (.rule r) cs := by
  by_cases h : ∃ cs', Begins cs l cs'
  · obtain ⟨cs', hbegins⟩ := h
    obtain ⟨text, hyields⟩ := yields_operator (s := s) hop hbegins
    exact ⟨_, hyields⟩
  · exact ⟨none, yields_operator_fail hop (not_exists.mp h)⟩

theorem decided_category (cs : List Char) : Decided s (.rule .category) cs := by
  by_cases h : ∃ w cs', Begins cs (.category w) cs'
  · obtain ⟨w, cs', hbegins⟩ := h
    exact ⟨_, yields_category hbegins⟩
  · simp only [not_exists] at h
    exact ⟨none, yields_category_fail h⟩

theorem decided_phrase (cs : List Char) : Decided s (.rule .phrase) cs := by
  by_cases h : ∃ w cs', Begins cs (.phrase w) cs'
  · obtain ⟨w, cs', hbegins⟩ := h
    obtain ⟨text, hyields⟩ := yields_phrase (s := s) hbegins
    exact ⟨_, hyields⟩
  · simp only [not_exists] at h
    exact ⟨none, yields_phrase_fail h⟩

theorem Decided.seq (ha : Decided s a cs)
    (hb : ∀ ps cs₁, Yields grammar s .plain a cs (some (ps, cs₁)) →
      Decided s b (dropWhites cs₁)) : Decided s (.seq a b) cs := by
  obtain ⟨o, ha⟩ := ha
  cases o with
  | none => exact ⟨none, .seq_fail_left ha⟩
  | some x =>
    obtain ⟨ps, cs₁⟩ := x
    obtain ⟨o, hb⟩ := hb ps cs₁ ha
    cases o with
    | none => exact ⟨none, .seq_fail_right ha (yields_skip cs₁) hb⟩
    | some y => exact ⟨_, .seq ha (yields_skip cs₁) hb⟩

theorem Decided.choice (ha : Decided s a cs) (hb : Decided s b cs) :
    Decided s (.choice a b) cs := by
  obtain ⟨o, ha⟩ := ha
  obtain ⟨o', hb⟩ := hb
  cases o with
  | none => exact ⟨o', .choice_right ha hb⟩
  | some x => exact ⟨some x, .choice_left ha⟩

theorem Decided.rule (hr : r.kind.mode .plain = .plain) (h : Decided s r.body cs) :
    Decided s (.rule r) cs := by
  obtain ⟨o, hbody⟩ := h
  cases o with
  | none => exact ⟨none, yields_rule_fail hr hbody⟩
  | some x =>
    obtain ⟨qs, hrule⟩ := exists_yields_rule hr hbody
    exact ⟨_, hrule⟩

/-- A repetition comes to an end if each of its parts takes something. -/
theorem Decided.again (hpart : ∀ cs₁, cs₁ <:+ cs → Decided s a cs₁)
    (hlt : ∀ cs₁ ps cs₂, Yields grammar s .plain a cs₁ (some (ps, cs₂)) →
      cs₂.length < cs₁.length) : Decided s (.again a) cs := by
  induction hn : cs.length using Nat.strong_induction_on generalizing cs with
  | _ n ih =>
    subst hn
    have hsuffix : dropWhites cs <:+ cs := List.dropWhile_suffix _
    obtain ⟨o, ha⟩ := hpart _ hsuffix
    cases o with
    | none => exact ⟨_, .again_none (yields_skip cs) ha⟩
    | some x =>
      obtain ⟨ps, cs₁⟩ := x
      have hshort : cs₁.length < cs.length := Nat.lt_of_lt_of_le (hlt _ _ _ ha) hsuffix.length_le
      have hrest := ha.suffix.trans hsuffix
      obtain ⟨o, hagain⟩ := ih _ hshort (fun cs₂ h₂ => hpart cs₂ (h₂.trans hrest)) rfl
      cases o with
      | none => cases hagain
      | some y => exact ⟨_, .again_some (yields_skip cs) ha hagain⟩

theorem Decided.star (hpart : ∀ cs₁, cs₁ <:+ cs → Decided s a cs₁)
    (hlt : ∀ cs₁ ps cs₂, Yields grammar s .plain a cs₁ (some (ps, cs₂)) →
      cs₂.length < cs₁.length) : Decided s (.star a) cs := by
  obtain ⟨o, ha⟩ := hpart cs (List.suffix_refl cs)
  cases o with
  | none => exact ⟨_, .star_none ha⟩
  | some x =>
    obtain ⟨ps, cs₁⟩ := x
    have hagain : Decided s (.again a) cs₁ :=
      .again (fun cs₂ h₂ => hpart cs₂ (h₂.trans ha.suffix)) hlt
    obtain ⟨o, hagain⟩ := hagain
    cases o with
    | none => cases hagain
    | some y => exact ⟨_, .star_some ha hagain⟩

/-! ## The rules of the grammar -/

theorem length_lt_of_begins (h : Begins cs l cs') : cs'.length < cs.length := by
  cases h with
  | symbol => simp
  | word hne => simpa using List.length_pos_iff.mpr hne
  | phrase => simp; omega

theorem length_lt_of_operator {ps : List (Pair Rule)} (hop : IsOperator r word symbol l)
    (h : Yields grammar s .plain (.rule r) cs (some (ps, cs'))) : cs'.length < cs.length :=
  length_lt_of_begins (of_yields_operator hop h).1

/-- Operands with an operator between each two, if operands are decided. -/
theorem decided_operands {ro : Rule} (hop : IsOperator ro word symbol l)
    (hr : ∀ cs₁, cs₁ <:+ cs → Decided s (.rule r) cs₁) : Decided s (Rule.operands ro r) cs := by
  refine (hr cs (List.suffix_refl cs)).seq fun ps cs₁ hfirst => ?_
  have hcs₁ : dropWhites cs₁ <:+ cs := (List.dropWhile_suffix _).trans hfirst.suffix
  -- Every part begins with an operator, so that the text behind it is shorter.
  refine .star (fun cs₂ h₂ => (decided_operator hop cs₂).seq fun qs cs₃ h₃ => hr _ ?_) ?_
  · exact (List.dropWhile_suffix _).trans (h₃.suffix.trans (h₂.trans hcs₁))
  · intro cs₂ qs cs₃ hpart
    obtain ⟨_, _, cs₄, -, hoperator, hoperand⟩ := of_yields_seq hpart
    have hle : cs₃.length ≤ cs₄.length :=
      hoperand.suffix.length_le.trans (length_dropWhites_le cs₄)
    exact Nat.lt_of_le_of_lt hle (length_lt_of_operator hop hoperator)

theorem decided_primary
    (ih : ∀ cs₁ : List Char, cs₁.length < cs.length → Decided s (.rule .disjunction) cs₁) :
    Decided s (.rule .primary) cs := by
  refine .rule rfl <| (decided_phrase cs).choice <| (decided_category cs).choice <|
    (decided_char '(' cs).seq fun ps cs₁ hopen => ?_
  obtain ⟨rfl, -⟩ := of_yields_char hopen
  have hlt := Nat.lt_succ_of_le (length_dropWhites_le cs₁)
  exact (ih _ hlt).seq fun _ cs₂ _ => decided_char ')' _

theorem decided_negation (hprimary : ∀ cs₁, cs₁ <:+ cs → Decided s (.rule .primary) cs₁) :
    Decided s (.rule .negation) cs := by
  have hnots : Decided s (.star (.rule .notOp)) cs :=
    .star (fun cs₁ _ => decided_operator isOperator_notOp cs₁)
      fun _ _ _ => length_lt_of_operator isOperator_notOp
  refine .rule rfl <| hnots.seq fun ps cs₁ h => hprimary _ ?_
  exact (List.dropWhile_suffix _).trans h.suffix

theorem decided_disjunction (s cs : List Char) : Decided s (.rule .disjunction) cs := by
  induction hn : cs.length using Nat.strong_induction_on generalizing cs with
  | _ n ih =>
    subst hn
    refine .rule rfl <| decided_operands isOperator_orOp fun cs₁ h₁ => .rule rfl <|
      decided_operands isOperator_andOp fun cs₂ h₂ => decided_negation fun cs₃ h₃ =>
        decided_primary fun cs₄ h₄ => ?_
    have hle : cs₃.length ≤ cs.length := ((h₃.trans h₂).trans h₁).length_le
    exact ih _ (Nat.lt_of_lt_of_le h₄ hle) cs₄ rfl

end Decided

theorem decided_endOfInput (s cs : List Char) : Decided s (.rule .endOfInput) cs := by
  cases cs with
  | nil => exact .rule rfl ⟨_, .finish⟩
  | cons c cs => exact .rule rfl ⟨_, .finish_fail⟩

theorem decided_expression (s : List Char) : Decided s (.rule .expression) s :=
  .rule rfl <| Decided.seq ⟨_, .start rfl⟩ fun _ _ _ =>
    (decided_disjunction s _).seq fun _ _ _ => decided_endOfInput s _

end PlaceSearch.Query

namespace PlaceSearch

open Peg Query

/-- A text can be cut into lexemes in one way only. -/
theorem Cuts.unique {cs : List Char} {ls ls' : List Lexeme} (h : Cuts cs ls [])
    (h' : Cuts cs ls' []) : ls = ls' := by
  induction ls generalizing cs ls' with
  | nil =>
    cases ls' with
    | nil => rfl
    | cons l' ls' =>
      obtain ⟨cs₁, hbegins, -⟩ := exists_begins_of_cuts h'
      exact absurd hbegins (not_begins_of_cuts h nofun cs₁)
  | cons l ls ih =>
    obtain ⟨cs₁, hbegins, hcuts⟩ := exists_begins_of_cuts h
    cases ls' with
    | nil => exact absurd hbegins (not_begins_of_cuts h' nofun cs₁)
    | cons l' ls' =>
      obtain ⟨cs₂, hbegins', hcuts'⟩ := exists_begins_of_cuts h'
      obtain ⟨rfl, rfl⟩ := begins_unique hbegins hbegins'
      rw [ih hcuts hcuts']

/-- The grammar on characters takes a text or fails on it, and not both.  The parser reads exactly
the texts that the grammar takes and an expression can be built for, which are those that can be
cut into lexemes that are produced from a disjunction, none of them a phrase of blanks only; and
it reads the expression that is built and that is produced. -/
theorem parse_eq_ok_iff_grammar (s : String) :
    (∃! o, Yields grammar s.toList .plain (.rule .expression) s.toList o) ∧
      ∀ e, (parse s = .ok e ↔ ∃ ps, Matches s ps ∧ buildQuery ps = .ok e) ∧
        (parse s = .ok e ↔ ∃ ls, Cuts s.toList ls [] ∧ Produces .disjunction ls e ∧
          ∀ l ∈ ls, ¬l.IsBlank) := by
  refine ⟨?_, fun e => ⟨⟨fun h => ?_, ?_⟩, parse_eq_ok_iff_produces⟩⟩
  · obtain ⟨o, ho⟩ := decided_expression s.toList
    exact ⟨o, ho, fun o' ho' => ho'.unique ho⟩
  · obtain ⟨ls, hcuts, hproduces, hblank⟩ := parse_eq_ok_iff_produces.mp h
    obtain ⟨ps, hmatches⟩ := exists_matches_of_produces hcuts hproduces
    obtain ⟨ls', e', hcuts', hproduces', hbuild⟩ := exists_produces_of_matches hmatches
    obtain rfl := hcuts.unique hcuts'
    have hparse : parse s = .ok e' := parse_eq_ok_iff_produces.mpr ⟨ls, hcuts, hproduces', hblank⟩
    obtain rfl := Except.ok.inj (h.symm.trans hparse)
    exact ⟨ps, hmatches, hbuild.trans (verdict_of_not_blank hblank e)⟩
  · rintro ⟨ps, hmatches, hbuild⟩
    obtain ⟨ls, e', hcuts, hproduces, hverdict⟩ := exists_produces_of_matches hmatches
    obtain ⟨rfl, hblank⟩ := verdict_eq_ok_iff.mp (hverdict.symm.trans hbuild)
    exact parse_eq_ok_iff_produces.mpr ⟨ls, hcuts, hproduces, hblank⟩

end PlaceSearch
