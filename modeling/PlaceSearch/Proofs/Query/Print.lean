import PlaceSearch.Proofs.Query.Parse

/-!
# The text of words

Every word of a query has a text that spells it, whatever comes next, as long as no run is
continued by accident.  So the text of some pieces that are words spells these words, and it
reads what they read.
-/

namespace PlaceSearch

namespace Token

/-- The text of the word spells the word in front of any text but one that continues its
run. -/
def Printable (t : Token) : Prop :=
  ∀ {cs : List Char} {ts : List Token}, (t = .lparen ∨ ∀ c ∈ cs.head?, isRunChar c = false) →
    Spells cs ts → Spells (t.render.toList ++ cs) (t :: ts)

/-- A parenthesis is spelled whatever comes next. -/
theorem printable_of_ofSymbol? {c : Char} {t : Token} (h : ofSymbol? c = some t)
    (ht : t.render.toList = [c]) : t.Printable := by
  intro cs ts _ hcs
  rw [ht, List.singleton_append]
  exact .symbol h hcs

/-- A word that its text reads as a run is spelled by it. -/
theorem printable_of_ofRun {t : Token} {w : List Char} (hread : ofRun w = t)
    (htext : t.render.toList = w) (hne : w ≠ []) (hrun : ∀ c ∈ w, isRunChar c = true)
    (ht : t ≠ .lparen) : t.Printable := by
  intro cs ts hstop hcs
  have hspells := Spells.run hne hrun (hstop.resolve_left ht) hcs
  rwa [hread, ← htext] at hspells

/-- What a run reads, by its characters in lower case. -/
theorem ofRun_eq (w : List Char) :
    ofRun w =
      if String.ofList (Text.lowerFrom [] w) = "and" then .and
      else if String.ofList (Text.lowerFrom [] w) = "or" then .or
      else if String.ofList (Text.lowerFrom [] w) = "not" then .not
      else .term (.category (String.ofList (Text.lowerFrom [] w))) := by
  rw [ofRun, Text.lower, String.toList_ofList]

theorem printable_and : Token.and.Printable := by
  have hread : ofRun ['A', 'N', 'D'] = .and := by
    rw [ofRun_eq]
    rfl
  apply printable_of_ofRun hread rfl
  · decide
  · exact List.all_eq_true.mp (by decide)
  · decide

theorem printable_or : Token.or.Printable := by
  have hread : ofRun ['O', 'R'] = .or := by
    rw [ofRun_eq]
    rfl
  apply printable_of_ofRun hread rfl
  · decide
  · exact List.all_eq_true.mp (by decide)
  · decide

theorem printable_not : Token.not.Printable := by
  have hread : ofRun ['N', 'O', 'T'] = .not := by
    rw [ofRun_eq]
    rfl
  apply printable_of_ofRun hread rfl
  · decide
  · exact List.all_eq_true.mp (by decide)
  · decide

theorem printable_lparen : Token.lparen.Printable :=
  printable_of_ofSymbol? (c := '(') rfl (by decide)

theorem printable_rparen : Token.rparen.Printable :=
  printable_of_ofSymbol? (c := ')') rfl (by decide)

/-! ## Runs -/

theorem toNat_lt_of_isRunChar {c : Char} (h : isRunChar c = true) : c.toNat < 0x80 := by
  simp only [isRunChar, Bool.or_eq_true, beq_iff_eq] at h
  rcases h with (h | rfl) | rfl
  · rcases Bool.or_eq_true_iff.mp h with h | hdigit
    · rcases Bool.or_eq_true_iff.mp h with hupper | hlower
      · have hle : c.val ≤ 'Z'.val := (of_decide_eq_true hupper).2
        exact Nat.lt_of_le_of_lt (UInt32.le_iff_toNat_le.mp hle) (by decide)
      · have hle : c.val ≤ 'z'.val := of_decide_eq_true (Bool.and_eq_true_iff.mp hlower).2
        exact Nat.lt_of_le_of_lt (UInt32.le_iff_toNat_le.mp hle) (by decide)
    · exact Nat.lt_of_le_of_lt (Char.isDigit_iff_toNat.mp hdigit).2 (by decide)
  · decide
  · decide

theorem isRunChar_of_mem_lowerChar {c d : Char} (hc : isRunChar c = true)
    (h : d ∈ Text.lowerChar c) : isRunChar d = true := by
  have hall : ∀ n < 0x80, isRunChar (Char.ofNat n) = true →
      (Text.lowerChar (Char.ofNat n)).all isRunChar = true := by
    decide +kernel
  obtain ⟨n, hn, rfl⟩ := Text.exists_eq_ofNat (toNat_lt_of_isRunChar hc)
  exact List.all_eq_true.mp (hall n hn hc) d h

/-- What a run reads depends on its small form only. -/
theorem ofRun_congr {v w : List Char}
    (h : Text.lower (String.ofList v) = Text.lower (String.ofList w)) : ofRun v = ofRun w := by
  rw [ofRun, ofRun, h]

/-- A run that is no operator is a category. -/
theorem ofRun_cases (w : List Char) :
    ofRun w = .and ∨ ofRun w = .or ∨ ofRun w = .not ∨
      ofRun w = .term (.category (String.ofList (Text.lowerFrom [] w))) := by
  rw [ofRun_eq]
  split
  · exact .inl rfl
  · split
    · exact .inr (.inl rfl)
    · split
      · exact .inr (.inr (.inl rfl))
      · exact .inr (.inr (.inr rfl))

theorem lowerFrom_ne_nil {w : List Char} (h : w ≠ []) : Text.lowerFrom [] w ≠ [] := by
  obtain ⟨c, w, rfl⟩ := List.exists_cons_of_ne_nil h
  rw [Text.lowerFrom_cons]
  exact List.append_ne_nil_of_left_ne_nil (Text.lowerAt_ne_nil _ _ _) _

theorem isRunChar_of_mem_lowerFrom {w : List Char} (hw : ∀ c ∈ w, isRunChar c = true) :
    ∀ d ∈ Text.lowerFrom [] w, isRunChar d = true := by
  intro d hd
  obtain ⟨c, hc, hd | ⟨rfl, -⟩⟩ := Text.mem_lowerFrom hd
  · exact isRunChar_of_mem_lowerChar (hw c hc) hd
  · exact absurd (hw _ hc) (by decide)

/-- A run and its small form read the same word. -/
theorem ofRun_lowerFrom (w : List Char) : ofRun (Text.lowerFrom [] w) = ofRun w := by
  have hstable := Text.lower_lower (String.ofList w)
  rw [Text.lower, Text.lower, String.toList_ofList, String.toList_ofList] at hstable
  refine ofRun_congr ?_
  rw [Text.lower, Text.lower, String.toList_ofList, String.toList_ofList, hstable]

/-- The word of a run has its small form for a text, if it is no operator. -/
theorem printable_ofRun {w : List Char} (hne : w ≠ []) (hw : ∀ c ∈ w, isRunChar c = true) :
    (ofRun w).Printable := by
  rcases ofRun_cases w with hand | hor | hnot | hterm
  · exact hand ▸ printable_and
  · exact hor ▸ printable_or
  · exact hnot ▸ printable_not
  · have htext : (ofRun w).render.toList = Text.lowerFrom [] w := by
      rw [hterm, render, Term.render, Term.category, String.toList_ofList]
    apply printable_of_ofRun (ofRun_lowerFrom w) htext (lowerFrom_ne_nil hne)
      (isRunChar_of_mem_lowerFrom hw)
    simp [hterm]

/-! ## Phrases -/

/-- A phrase is trimmed and in lower case already. -/
theorem printable_ofPhrase {w : List Char} (hw : '@' ∉ w)
    (hblank : (ofPhrase w).isBlankPhrase = false) : (ofPhrase w).Printable := by
  intro cs ts _ hcs
  obtain ⟨v, hv⟩ : ∃ v, v = (Text.lower (Text.trim (String.ofList w))).toList := ⟨_, rfl⟩
  have hphrase : ofPhrase w = .term (.phrase (String.ofList v)) := by
    rw [hv, String.ofList_toList, ofPhrase]
  have hne : v ≠ [] := by
    rintro rfl
    rw [hphrase] at hblank
    exact absurd hblank (by decide)
  have hat : '@' ∉ v := by
    obtain ⟨front, back, -, -, hsplit, -⟩ := Text.exists_trim (String.ofList w)
    rw [String.toList_ofList] at hsplit
    rw [hv, Text.lower, String.toList_ofList]
    apply Text.at_not_mem_lowerFrom
    intro hmem
    apply hw
    rw [hsplit]
    exact List.mem_append_left _ (List.mem_append_right _ hmem)
  have hread : ofPhrase v = ofPhrase w := by
    rw [hv, ofPhrase, ofPhrase, String.ofList_toList, Text.trim_lower, Text.trim_trim,
      Text.lower_lower]
  have htext : (ofPhrase w).render.toList ++ cs = '@' :: (v ++ '@' :: cs) := by
    simp [hphrase, render, Term.render, Term.phrase]
  rw [htext, ← hread]
  exact .phrase hne hat hcs

end Token

/-- The words that a text spells have texts of their own, unless they are phrases of blanks
only. -/
theorem Spells.printable {cs : List Char} {ts : List Token} (h : Spells cs ts) {t : Token}
    (ht : t ∈ ts) (hblank : t.isBlankPhrase = false) : t.Printable := by
  induction h with
  | nil => cases ht
  | gap _ _ ih => exact ih ht
  | @symbol c t' _ _ hc _ ih =>
    rcases List.mem_cons.mp ht with rfl | ht
    · unfold Token.ofSymbol? at hc
      split at hc
      case h_6 => cases hc
      all_goals
        obtain rfl := Option.some.inj hc
        first
        | exact Token.printable_and
        | exact Token.printable_or
        | exact Token.printable_not
        | exact Token.printable_lparen
        | exact Token.printable_rparen
    · exact ih ht
  | run hne hw _ _ ih =>
    rcases List.mem_cons.mp ht with rfl | ht
    · exact Token.printable_ofRun hne hw
    · exact ih ht
  | phrase _ hw _ ih =>
    rcases List.mem_cons.mp ht with rfl | ht
    · exact Token.printable_ofPhrase hw hblank
    · exact ih ht

/-! ## The text of some words -/

namespace Piece

/-- Behind a word the text of some words spells them, and continues no run. -/
theorem spells_renderAfter {ts : List Token} (h : ∀ t ∈ ts, t.Printable) (before : Token) :
    Spells (renderAfter (.word before) (ts.map .word)).toList ts ∧
      (before = .lparen ∨
        ∀ c ∈ (renderAfter (.word before) (ts.map .word)).toList.head?,
          Token.isRunChar c = false) := by
  induction ts generalizing before with
  | nil => exact ⟨.nil, .inr (by simp [renderAfter])⟩
  | cons t ts ih =>
    obtain ⟨ht, hts⟩ := List.forall_mem_cons.mp h
    obtain ⟨hrest, hstop⟩ := ih hts t
    have hword := ht hstop hrest
    rw [List.map_cons, renderAfter, String.toList_append, String.toList_append,
      List.append_assoc]
    by_cases hgap : Piece.word before = .word .lparen ∨ Piece.word t = .word .rparen
    · rw [if_pos hgap]
      refine ⟨hword, ?_⟩
      rcases hgap with hbefore | hclose
      · exact .inl (Piece.word.inj hbefore)
      · rw [Piece.word.inj hclose]
        exact .inr (by simp [render, Token.render]; decide)
    · rw [if_neg hgap]
      exact ⟨.gap (by decide) hword, .inr (by simp; decide)⟩

/-- The text of some words spells them, unless they are parentheses only. -/
theorem spells_renderAll {ts : List Token} (h : ∀ t ∈ ts, t.Printable)
    (hall : (ts.map Piece.word).all isEmpty = false) :
    Spells (renderAll (ts.map .word)).toList ts := by
  cases ts with
  | nil => simp at hall
  | cons t ts =>
    obtain ⟨ht, hts⟩ := List.forall_mem_cons.mp h
    obtain ⟨hrest, hstop⟩ := spells_renderAfter hts t
    have htext : renderAll ((t :: ts).map .word) =
        t.render ++ renderAfter (.word t) (ts.map .word) := by
      unfold renderAll
      rw [hall]
      rfl
    rw [htext, String.toList_append]
    exact ht hstop hrest

end Piece

end PlaceSearch
