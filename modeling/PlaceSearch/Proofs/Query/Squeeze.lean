import PlaceSearch.Proofs.Query.Print
import PlaceSearch.Proofs.Text.Words

/-!
# The words of a query in standard form

A query in lower case with single blanks between its words spells the same words as before, but
for the blanks inside of phrases: outside of them blanks only stand between words, and what a
run, a symbol or a phrase reads does not depend on its case.  So queries with one standard form
spell the same words, up to the blanks inside of phrases.
-/

namespace PlaceSearch

/-- The term with single blanks between the words of a phrase. -/
def Term.squeezed (t : Term) : Term :=
  match t.kind with
  | .category => t
  | .phrase => .phrase (Text.squeeze t.text)

/-- The word with single blanks between the words of a phrase. -/
def Token.squeezed : Token → Token
  | .term t => .term t.squeezed
  | t => t

namespace Token

theorem squeezed_ofRun (w : List Char) : (ofRun w).squeezed = ofRun w := by
  rcases ofRun_cases w with h | h | h | h <;> rw [h] <;> rfl

theorem squeezed_of_ofSymbol? {c : Char} {t : Token} (h : ofSymbol? c = some t) :
    t.squeezed = t := by
  unfold ofSymbol? at h
  split at h
  case h_6 => cases h
  all_goals
    obtain rfl := Option.some.inj h
    rfl

/-- The text of a phrase with single blanks between its words reads the phrase so squeezed. -/
theorem squeezed_ofPhrase (w : List Char) {back : List Char} (hback : ∀ b ∈ back, b = ' ') :
    ofPhrase (Text.squeezeFrom false w ++ back) = (ofPhrase w).squeezed := by
  have htext : (ofPhrase w).squeezed = .term (.phrase (Text.squeeze
      (Text.lower (Text.trim (String.ofList w))))) := rfl
  rw [htext, ofPhrase, Text.trim_squeezeFrom_append false w hback, ← Text.lower_squeeze,
    Text.squeeze_trim]

/-! ## Classes of characters -/

theorem not_isBlank_of_isRunChar {c : Char} (h : isRunChar c = true) : Text.isBlank c = false := by
  have hall : Text.blanks.all fun c => !isRunChar c := by decide
  rw [← Bool.not_eq_true]
  intro hblank
  have hout := List.all_eq_true.mp hall c (Text.mem_blanks hblank)
  rw [h] at hout
  cases hout

theorem ne_sigma_of_isRunChar {c : Char} (h : isRunChar c = true) : c ≠ 'Σ' := by
  rintro rfl
  exact absurd h (by decide)

/-- The characters of the symbols are no blanks and have no case. -/
theorem text_of_ofSymbol? {c : Char} {t : Token} (h : ofSymbol? c = some t) :
    Text.isBlank c = false ∧ ∀ before after, Text.lowerAt before c after = [c] := by
  unfold ofSymbol? at h
  split at h
  case h_6 => cases h
  all_goals exact ⟨by decide, fun _ _ => rfl⟩

end Token

open Token

/-! ## Single blanks -/

namespace Spells

theorem gap_append {cs : List Char} {ts : List Token} (h : Spells cs ts) (gap : Bool) :
    Spells ((if gap then [' '] else []) ++ cs) ts := by
  cases gap with
  | true => exact .gap (by decide) h
  | false => exact h

/-- Blanks in front of a text do not matter. -/
theorem trimStart {cs : List Char} {ts : List Token} (h : Spells cs ts) :
    Spells (Text.trimStart cs) ts := by
  have hself : ∀ {c : Char} {cs : List Char}, Text.isBlank c = false →
      Text.trimStart (c :: cs) = c :: cs := fun hc =>
    List.dropWhile_cons_of_neg (by simp [hc])
  induction h with
  | nil => exact .nil
  | gap hc h ih =>
    rw [Text.trimStart, List.dropWhile_cons_of_pos (Text.isBlank_of_isGap hc)]
    exact ih
  | symbol hc h =>
    rw [hself (text_of_ofSymbol? hc).1]
    exact .symbol hc h
  | @run w cs ts hne hw hcs h =>
    obtain ⟨c, w, rfl⟩ := List.exists_cons_of_ne_nil hne
    rw [List.cons_append, hself (not_isBlank_of_isRunChar (hw c List.mem_cons_self))]
    exact .run hne hw hcs h
  | phrase hne hw h =>
    rw [hself (by decide)]
    exact .phrase hne hw h

theorem head?_squeezeFrom {cs : List Char} (h : ∀ c ∈ cs.head?, isRunChar c = false) :
    ∀ c ∈ (Text.squeezeFrom false cs).head?, isRunChar c = false := by
  cases cs with
  | nil => simp [Text.squeezeFrom]
  | cons c cs =>
    cases hc : Text.isBlank c with
    | true =>
      rw [Text.squeezeFrom_of_isBlank hc, Text.squeezeFrom_true]
      split
      · simp
      · simp
        decide
    | false =>
      rw [Text.squeezeFrom_of_not_isBlank hc]
      exact h

/-- With single blanks a text spells the same words, but for the blanks inside of phrases. -/
theorem squeezeFrom {cs : List Char} {ts : List Token} (h : Spells cs ts) (gap : Bool) :
    Spells (Text.squeezeFrom gap cs) (ts.map squeezed) := by
  induction h generalizing gap with
  | nil => exact .nil
  | gap hc _ ih =>
    rw [Text.squeezeFrom_of_isBlank (Text.isBlank_of_isGap hc)]
    exact ih true
  | symbol hc _ ih =>
    rw [Text.squeezeFrom_of_not_isBlank (text_of_ofSymbol? hc).1, List.map_cons,
      squeezed_of_ofSymbol? hc]
    exact gap_append (.symbol hc (ih false)) gap
  | run hne hw hcs _ ih =>
    have hblank := fun c hc => not_isBlank_of_isRunChar (hw c hc)
    rw [Text.squeezeFrom_append_of_not_isBlank hne hblank, List.map_cons, squeezed_ofRun]
    exact gap_append (.run hne hw (head?_squeezeFrom hcs) (ih false)) gap
  | @phrase w cs ts hne hw _ ih =>
    have hat : Text.isBlank '@' = false := by decide
    obtain ⟨back, hback, hnil, happend⟩ := Text.exists_squeezeFrom_append false w hat cs
    rw [Text.squeezeFrom_of_not_isBlank hat, happend, List.map_cons, ← squeezed_ofPhrase w hback]
    refine gap_append (.phrase (mt hnil hne) (fun hmem => ?_) (ih false)) gap
    rcases List.mem_append.mp hmem with hmem | hmem
    · rcases Text.mem_squeezeFrom hmem with hmem | hmem
      · exact hw hmem
      · exact absurd hmem (by decide)
    · exact absurd (hback _ hmem) (by decide)

/-! ## Lower case -/

/-- A character that ends a run keeps its form. -/
theorem lowerAt_head {c : Char} {cs : List Char} {ts : List Token} (h : Spells (c :: cs) ts)
    (hc : isRunChar c = false) (before after : List Char) :
    Text.lowerAt before c after = [c] := by
  generalize hcs : c :: cs = cs' at h
  cases h with
  | nil => cases hcs
  | gap hgap =>
    obtain ⟨rfl, -⟩ := List.cons.inj hcs
    exact Text.lowerAt_of_isBlank (Text.isBlank_of_isGap hgap) before after
  | symbol hsymbol =>
    obtain ⟨rfl, -⟩ := List.cons.inj hcs
    exact (text_of_ofSymbol? hsymbol).2 before after
  | @run w _ _ hne hw =>
    obtain ⟨d, w, rfl⟩ := List.exists_cons_of_ne_nil hne
    obtain ⟨rfl, -⟩ := List.cons.inj hcs
    rw [hw c List.mem_cons_self] at hc
    cases hc
  | phrase =>
    obtain ⟨rfl, -⟩ := List.cons.inj hcs
    rfl

theorem head?_lowerFrom {cs : List Char} {ts : List Token} (h : Spells cs ts)
    (hcs : ∀ c ∈ cs.head?, isRunChar c = false) (before : List Char) :
    ∀ c ∈ (Text.lowerFrom before cs).head?, isRunChar c = false := by
  cases cs with
  | nil => simp [Text.lowerFrom]
  | cons c cs =>
    have hc : isRunChar c = false := hcs c rfl
    rw [Text.lowerFrom_cons, h.lowerAt_head hc]
    simpa using hc

/-- Runs are put in lower case by themselves. -/
theorem lowerFrom_run_append {w : List Char} (hw : ∀ c ∈ w, isRunChar c = true)
    (before before' cs : List Char) :
    Text.lowerFrom before (w ++ cs) =
      Text.lowerFrom before' w ++ Text.lowerFrom (w.reverse ++ before) cs := by
  induction w generalizing before before' with
  | nil => rfl
  | cons c w ih =>
    obtain ⟨hc, hw⟩ := List.forall_mem_cons.mp hw
    have hsigma := ne_sigma_of_isRunChar hc
    rw [List.cons_append, Text.lowerFrom_cons, Text.lowerFrom_cons, ih hw _ (c :: before'),
      Text.lowerAt, Text.lowerAt, if_neg hsigma, if_neg hsigma, List.reverse_cons,
      List.append_assoc, List.append_assoc, List.singleton_append]

theorem ofPhrase_lowerFrom (w : List Char) : ofPhrase (Text.lowerFrom [] w) = ofPhrase w := by
  have hlower : String.ofList (Text.lowerFrom [] w) = Text.lower (String.ofList w) := by
    rw [Text.lower, String.toList_ofList]
  rw [ofPhrase, ofPhrase, hlower, Text.trim_lower, Text.lower_lower]

/-- In lower case a text spells the same words. -/
theorem lowerFrom {cs : List Char} {ts : List Token} (h : Spells cs ts) (before : List Char) :
    Spells (Text.lowerFrom before cs) ts := by
  induction h generalizing before with
  | nil => exact .nil
  | gap hc _ ih =>
    rw [Text.lowerFrom_cons, Text.lowerAt_of_isBlank (Text.isBlank_of_isGap hc)]
    exact .gap hc (ih _)
  | symbol hc _ ih =>
    rw [Text.lowerFrom_cons, (text_of_ofSymbol? hc).2]
    exact .symbol hc (ih _)
  | @run w cs ts hne hw hcs h ih =>
    rw [lowerFrom_run_append hw before [], ← ofRun_lowerFrom w]
    exact .run (lowerFrom_ne_nil hne) (isRunChar_of_mem_lowerFrom hw)
      (h.head?_lowerFrom hcs _) (ih _)
  | @phrase w cs ts hne hw _ ih =>
    have hat : ∀ before after, Text.lowerAt before '@' after = ['@'] := fun _ _ => rfl
    have hcontext : Text.nextIsCased ('@' :: before) = Text.nextIsCased [] :=
      Text.nextIsCased_append_cons Text.isCased_at Text.isCaseIgnorable_at [] before
    rw [Text.lowerFrom_cons, hat, Text.lowerFrom_append_cons Text.isCased_at Text.isCaseIgnorable_at,
      Text.lowerFrom_cons _ '@', hat, Text.lowerFrom_congr hcontext w, ← ofPhrase_lowerFrom w]
    exact .phrase (lowerFrom_ne_nil hne) (Text.at_not_mem_lowerFrom hw) (ih _)

/-- Queries with one standard form spell the same words, but for the blanks inside of
phrases. -/
theorem map_squeezed_eq {s s' : String} {ts ts' : List Token} (h : Spells s.toList ts)
    (h' : Spells s'.toList ts')
    (hform : Text.lower (Text.squeeze s) = Text.lower (Text.squeeze s')) :
    ts.map squeezed = ts'.map squeezed := by
  have hspells : ∀ {s : String} {ts : List Token}, Spells s.toList ts →
      Spells (Text.lower (Text.squeeze s)).toList (ts.map squeezed) := by
    intro s ts h
    rw [Text.lower, String.toList_ofList, Text.toList_squeeze]
    exact (h.trimStart.squeezeFrom false).lowerFrom []
  rw [← (hspells h).search, hform, (hspells h').search]

end Spells

end PlaceSearch
