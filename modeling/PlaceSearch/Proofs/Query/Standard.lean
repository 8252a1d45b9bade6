import PlaceSearch.Proofs.Query.Squeeze

/-!
# Which queries are read

Whether a text is cut into words to its end depends on the classes of its characters alone: gaps,
letters of runs and symbols may stand outside of phrases, and an `@` opens or closes a phrase.
A text in standard form keeps these classes with two exceptions.  Blanks that may not stand between
words become blanks that may, and the Kelvin sign, which is no letter of a run, becomes one.  So of
two queries with one standard form both are read or none is, if they hold none of these characters.
-/

namespace PlaceSearch

open Token

/-! ## Texts that spell words -/

namespace Token

/-- Whether the character may stand outside of phrases, and opens none. -/
def isOutside (c : Char) : Bool :=
  Text.isGap c || isRunChar c || (ofSymbol? c).isSome

theorem toNat_lt_of_isOutside {c : Char} (h : isOutside c = true) : c.toNat < 0x80 := by
  simp only [isOutside, Bool.or_eq_true] at h
  rcases h with (h | h) | h
  · simp only [Text.isGap, Bool.or_eq_true, beq_iff_eq] at h
    rcases h with ((rfl | rfl) | rfl) | rfl <;> decide
  · exact toNat_lt_of_isRunChar h
  · unfold ofSymbol? at h
    split at h
    case h_6 => cases h
    all_goals decide

end Token

namespace Lexed

/-- Whether the cutting comes to the end of a text; behind the `@` that opens a phrase, with whether
the phrase has some text so far. -/
@[simp]
def closes : Option Bool → List Char → Bool
  | none, [] => true
  | some _, [] => false
  | none, c :: cs => if c = '@' then closes (some false) cs else isOutside c && closes none cs
  | some text, c :: cs => if c = '@' then text && closes none cs else closes (some true) cs

/-- Whether a phrase is open, and has some text so far. -/
def Mode.open? : Mode → Option Bool
  | .idle | .run _ _ => none
  | .phrase cs _ => some !cs.isEmpty

theorem stop_begin_eq_finished_iff {c : Char} {n : Nat} {rest : Mode → Lexed} {cs : List Char}
    (hrest : ∀ mode, (rest mode).stop = .finished ↔ closes mode.open? cs = true) :
    (begin c n rest).stop = .finished ↔ closes none (c :: cs) = true := by
  have hidle := hrest .idle
  have hrun := hrest (.run [c] n)
  have hphrase := hrest (.phrase [] n)
  simp only [Mode.open?, List.isEmpty_nil, Bool.not_true] at hidle hrun hphrase
  by_cases hat : c = '@'
  · subst hat
    have hgap : Text.isGap '@' = false := by decide
    have hchar : isRunChar '@' = false := by decide
    simpa [begin, hgap, hchar] using hphrase
  · rw [begin, closes, if_neg hat, if_neg hat, isOutside]
    split
    · next hgap => simpa [hgap] using hidle
    · next hgap =>
      split
      · next hchar => simpa [hchar] using hrun
      · next hchar =>
        cases hsymbol : ofSymbol? c with
        | some t => simpa [hsymbol] using hidle
        | none => simp [hgap, hchar]

theorem stop_scan_eq_finished_iff {cs : List Char} {mode : Mode} {n : Nat} :
    (scan mode n cs).stop = .finished ↔ closes mode.open? cs = true := by
  induction cs generalizing mode n with
  | nil =>
    cases mode with
    | idle => simp [Mode.open?]
    | run w start => simp [Mode.open?]
    | phrase w start => rw [scan]; split <;> simp [Mode.open?]
  | cons c cs ih =>
    have hbegin : ∀ n, (begin c n fun mode => scan mode (n + 1) cs).stop = .finished ↔
        closes none (c :: cs) = true := fun n => stop_begin_eq_finished_iff fun _ => ih
    cases mode with
    | idle => exact hbegin n
    | run w start =>
      rw [scan, Mode.open?]
      split
      · next hchar =>
        have hat : c ≠ '@' := by
          rintro rfl
          exact absurd hchar (by decide)
        rw [ih, Mode.open?, closes, if_neg hat, isOutside, hchar, Bool.or_true, Bool.true_or,
          Bool.true_and]
      · exact hbegin n
    | phrase w start =>
      rw [scan, Mode.open?, closes]
      split
      · split
        · next hempty => simp [hempty]
        · next hempty =>
          have hrest : (scan .idle (n + 1) cs).stop = .finished ↔ closes none cs = true := ih
          simpa [hempty] using hrest
      · exact ih

/-- A text spells words iff the cutting comes to its end. -/
theorem exists_spells_iff_closes {cs : List Char} :
    (∃ ts, Spells cs ts) ↔ closes none cs = true := by
  have hstop : (scan .idle 0 cs).stop = .finished ↔ closes none cs = true :=
    stop_scan_eq_finished_iff
  have hidle : Mode.idle.Proper := trivial
  rw [← hstop]
  exact ⟨fun ⟨_, h⟩ => (h.scan 0).1, fun h => ⟨_, spells_scan hidle h⟩⟩

/-- Inside of a phrase any text but an `@` is read. -/
theorem closes_some_append {w : List Char} (hne : w ≠ []) (hw : '@' ∉ w) (text : Bool)
    (cs : List Char) : closes (some text) (w ++ cs) = closes (some true) cs := by
  induction w generalizing text with
  | nil => exact absurd rfl hne
  | cons c w ih =>
    rw [List.mem_cons, not_or] at hw
    rw [List.cons_append, closes, if_neg (Ne.symm hw.1)]
    by_cases hnil : w = []
    · rw [hnil, List.nil_append]
    · exact ih hnil hw.2 true

/-- Outside of phrases a character that may not stand there is not passed. -/
theorem closes_none_append_of_mem {w : List Char} (hw : '@' ∉ w) {d : Char} (hd : d ∈ w)
    (houtside : isOutside d = false) (cs : List Char) : closes none (w ++ cs) = false := by
  induction w with
  | nil => cases hd
  | cons c w ih =>
    rw [List.mem_cons, not_or] at hw
    rw [List.cons_append, closes, if_neg (Ne.symm hw.1)]
    rcases List.mem_cons.mp hd with rfl | hd
    · rw [houtside, Bool.false_and]
    · rw [ih hw.2 hd, Bool.and_false]

/-! ## Single blanks -/

/-- Single blanks do not matter to where the cutting comes, if all blanks are gaps.  Inside of a
phrase one that is still to be written has been read. -/
theorem closes_squeezeFrom {cs : List Char}
    (hgap : ∀ c ∈ cs, Text.isBlank c = true → Text.isGap c = true) (gap : Bool) :
    closes none (Text.squeezeFrom gap cs) = closes none cs ∧
      ∀ text, closes (some text) (Text.squeezeFrom gap cs) = closes (some (text || gap)) cs := by
  induction cs generalizing gap with
  | nil => exact ⟨rfl, fun _ => rfl⟩
  | cons c cs ih =>
    obtain ⟨hc, hcs⟩ := List.forall_mem_cons.mp hgap
    cases hblank : Text.isBlank c with
    | true =>
      have hat : c ≠ '@' := by
        rintro rfl
        exact absurd hblank (by decide)
      obtain ⟨hnone, hsome⟩ := ih hcs true
      rw [Text.squeezeFrom_of_isBlank hblank]
      refine ⟨?_, fun text => ?_⟩
      · rw [hnone, closes, if_neg hat, isOutside, hc hblank, Bool.true_or, Bool.true_or,
          Bool.true_and]
      · rw [hsome, closes, if_neg hat, Bool.or_true]
    | false =>
      have hchar : closes none (c :: Text.squeezeFrom false cs) = closes none (c :: cs) ∧
          ∀ text, closes (some text) (c :: Text.squeezeFrom false cs) =
            closes (some text) (c :: cs) := by
        obtain ⟨hnone, hsome⟩ := ih hcs false
        refine ⟨?_, fun text => ?_⟩
        · rw [closes, closes, hnone, hsome, Bool.or_false]
        · rw [closes, closes, hnone, hsome, Bool.or_false]
      have hspace : isOutside ' ' = true := by decide
      rw [Text.squeezeFrom_of_not_isBlank hblank]
      cases gap with
      | false => simpa using hchar
      | true =>
        refine ⟨?_, fun text => ?_⟩
        · simp only [if_true, List.singleton_append]
          rw [closes, if_neg (by decide), hspace, Bool.true_and, hchar.1]
        · simp only [if_true, List.singleton_append]
          rw [closes, if_neg (by decide), hchar.2, Bool.or_true]

theorem closes_trimStart {cs : List Char}
    (hgap : ∀ c ∈ cs, Text.isBlank c = true → Text.isGap c = true) :
    closes none (Text.trimStart cs) = closes none cs := by
  induction cs with
  | nil => rfl
  | cons c cs ih =>
    obtain ⟨hc, hcs⟩ := List.forall_mem_cons.mp hgap
    cases hblank : Text.isBlank c with
    | true =>
      have hat : c ≠ '@' := by
        rintro rfl
        exact absurd hblank (by decide)
      have htrim : Text.trimStart (c :: cs) = Text.trimStart cs :=
        List.dropWhile_cons_of_pos hblank
      rw [htrim, ih hcs, closes, if_neg hat, isOutside, hc hblank, Bool.true_or, Bool.true_or,
        Bool.true_and]
    | false =>
      have htrim : Text.trimStart (c :: cs) = c :: cs :=
        List.dropWhile_cons_of_neg (by simp [hblank])
      rw [htrim]

/-! ## Lower case -/

end Lexed

/-- The Kelvin sign, whose small form is the letter `k`. -/
def Text.kelvin : Char :=
  '\u212a'

set_option maxRecDepth 20000 in
/-- No other letter of the table has a small form in ASCII. -/
theorem Text.all_avoids_ascii : lowerRuns.all fun r =>
    r.avoids (0, 0x7F) || (r.first == kelvin.toNat && r.last == kelvin.toNat) := by
  decide

namespace Token

/-- The small form of a character that may not stand outside of phrases may not either, but for
the Kelvin sign. -/
theorem exists_mem_lowerChar {c : Char} (hc : isOutside c = false) (hkelvin : c ≠ Text.kelvin) :
    ∃ d ∈ Text.lowerChar c, isOutside d = false := by
  by_cases hlt : c.toNat < 0x80
  · have hval : ¬(c.val ≥ 'A'.val ∧ c.val ≤ 'Z'.val) := by
      intro hval
      have hupper : c.isUpper = true := decide_eq_true hval
      have halpha : c.isAlpha = true := Bool.or_eq_true_iff.mpr (.inl hupper)
      have halnum : c.isAlphanum = true := Bool.or_eq_true_iff.mpr (.inl halpha)
      rw [isOutside, isRunChar, halnum, Bool.true_or, Bool.true_or, Bool.or_true,
        Bool.true_or] at hc
      cases hc
    have hlower : c.toLower = c := dif_neg hval
    exact ⟨c, by rw [Text.lowerChar, if_pos hlt, hlower]; exact List.mem_singleton_self c, hc⟩
  · have hout : ∀ {d : Char}, 0x80 ≤ d.toNat → isOutside d = false := by
      intro d hd
      rw [← Bool.not_eq_true]
      exact fun h => absurd (toNat_lt_of_isOutside h) (Nat.not_lt.mpr hd)
    rcases Text.lowerChar_cases c with ⟨h, -⟩ | ⟨-, hlower⟩ | ⟨r, hr, hn, hlower⟩ | hlower
    · exact absurd h hlt
    · exact ⟨Char.ofNat 0x307, by simp [hlower], by decide⟩
    · obtain ⟨-, -, hchar⟩ := Text.target_spec hr hn
      have htarget : 0x80 ≤ r.target c.toNat := by
        rcases Bool.or_eq_true_iff.mp (List.all_eq_true.mp Text.all_avoids_ascii r hr) with h | h
        · have hnot := Text.LowerRun.not_mem_of_avoids h hn
          omega
        · obtain ⟨⟨hfirst, hlast⟩, -⟩ := Text.LowerRun.holds_iff.mp hn
          simp only [Bool.and_eq_true, beq_iff_eq] at h
          rw [h.1] at hfirst
          rw [h.2] at hlast
          exact absurd (Char.toNat_inj.mp (Nat.le_antisymm hlast hfirst)) hkelvin
      exact ⟨_, by simp [hlower], hout (hchar.symm ▸ htarget)⟩
    · exact ⟨c, by simp [hlower], hc⟩

/-- A character that may stand outside of phrases has one small form, which may too. -/
theorem isOutside_of_mem_lowerChar {c d : Char} (hc : isOutside c = true)
    (hd : d ∈ Text.lowerChar c) : isOutside d = true := by
  have hsame : Text.lowerChar c = [c] → isOutside d = true := by
    intro hlower
    rw [hlower, List.mem_singleton] at hd
    rwa [hd]
  have hcases := hc
  simp only [isOutside, Bool.or_eq_true] at hcases
  rcases hcases with (hgap | hrun) | hsymbol
  · exact hsame (Text.lowerChar_of_isBlank (Text.isBlank_of_isGap hgap))
  · simp [isOutside, isRunChar_of_mem_lowerChar hrun hd]
  · obtain ⟨t, ht⟩ := Option.isSome_iff_exists.mp hsymbol
    refine hsame ?_
    unfold ofSymbol? at ht
    split at ht
    case h_6 => cases ht
    all_goals rfl

end Token

namespace Lexed

/-- Outside of phrases characters that may stand there are passed. -/
theorem closes_none_append {w : List Char} (hw : ∀ c ∈ w, isOutside c = true) (cs : List Char) :
    closes none (w ++ cs) = closes none cs := by
  induction w with
  | nil => rfl
  | cons c w ih =>
    obtain ⟨hc, hw⟩ := List.forall_mem_cons.mp hw
    have hat : c ≠ '@' := by
      rintro rfl
      exact absurd hc (by decide)
    rw [List.cons_append, closes, if_neg hat, hc, Bool.true_and, ih hw]

/-- Lower case does not matter to where the cutting comes, if there is no Kelvin sign. -/
theorem closes_lowerFrom {cs : List Char} (hkelvin : Text.kelvin ∉ cs) (before : List Char)
    (phrase? : Option Bool) :
    closes phrase? (Text.lowerFrom before cs) = closes phrase? cs := by
  induction cs generalizing before phrase? with
  | nil => rfl
  | cons c cs ih =>
    rw [List.mem_cons, not_or] at hkelvin
    have hrest := ih hkelvin.2 (c :: before)
    rw [Text.lowerFrom_cons]
    by_cases hat : c = '@'
    · subst hat
      have hlower : Text.lowerAt before '@' cs = ['@'] := rfl
      rw [hlower, List.singleton_append]
      cases phrase? <;> simp only [closes, hrest]
    · have hword : '@' ∉ Text.lowerAt before c cs := by
        intro hmem
        rcases Text.mem_lowerAt hmem with hmem | ⟨-, hmem⟩
        · exact hat (Text.eq_at_of_mem_lowerChar hmem)
        · exact absurd hmem (by decide)
      cases phrase? with
      | some text =>
        rw [closes_some_append (Text.lowerAt_ne_nil _ _ _) hword, hrest, closes, if_neg hat]
      | none =>
        rw [closes, if_neg hat]
        cases hc : isOutside c with
        | true =>
          have hsigma : c ≠ 'Σ' := by
            rintro rfl
            exact absurd hc (by decide)
          rw [Text.lowerAt, if_neg hsigma,
            closes_none_append fun d hd => isOutside_of_mem_lowerChar hc hd, hrest, Bool.true_and]
        | false =>
          obtain ⟨d, hd, hout⟩ : ∃ d ∈ Text.lowerAt before c cs, isOutside d = false := by
            rw [Text.lowerAt]
            split
            · split
              · exact ⟨'ς', by simp, by decide⟩
              · exact ⟨'σ', by simp, by decide⟩
            · exact exists_mem_lowerChar hc (Ne.symm hkelvin.1)
          rw [closes_none_append_of_mem hword hd hout, Bool.false_and]

end Lexed

/-- Every blank of the text may stand between words, and there is no Kelvin sign. -/
structure Text.IsTidy (s : String) : Prop where
  gap : ∀ c ∈ s.toList, isBlank c = true → isGap c = true
  no_kelvin : kelvin ∉ s.toList

theorem Text.isTidy_iff {s : String} :
    ((s.toList.all fun c => !isBlank c || isGap c) && !s.toList.contains kelvin) = true ↔
      IsTidy s := by
  have hgap : (s.toList.all fun c => !isBlank c || isGap c) = true ↔
      ∀ c ∈ s.toList, isBlank c = true → isGap c = true := by
    simp [or_iff_not_imp_left]
  rw [Bool.and_eq_true, hgap, Bool.not_eq_true', List.contains_eq_mem, decide_eq_false_iff_not]
  exact ⟨fun h => ⟨h.1, h.2⟩, fun h => ⟨h.gap, h.no_kelvin⟩⟩

instance Text.decidableIsTidy (s : String) : Decidable (IsTidy s) :=
  decidable_of_iff _ isTidy_iff

/-- A tidy text and its standard form both spell words, or neither does. -/
theorem Lexed.closes_form {s : String} (h : Text.IsTidy s) :
    closes none (Text.lower (Text.squeeze s)).toList = closes none s.toList := by
  have hgap : ∀ c ∈ Text.trimStart s.toList, Text.isBlank c = true → Text.isGap c = true :=
    fun c hc => h.gap c ((List.dropWhile_suffix _).mem hc)
  have hkelvin : Text.kelvin ∉ Text.squeezeFrom false (Text.trimStart s.toList) := by
    intro hmem
    rcases Text.mem_squeezeFrom hmem with hmem | hmem
    · exact h.no_kelvin ((List.dropWhile_suffix _).mem hmem)
    · exact absurd hmem (by decide)
  rw [Text.lower, String.toList_ofList, Text.toList_squeeze, closes_lowerFrom hkelvin,
    (closes_squeezeFrom hgap false).1, closes_trimStart h.gap]

/-! ## What words read -/

namespace Parser

/-- Parsers that stand at the same place of two queries that differ in their terms. -/
structure Alike (p p' : Parser) : Prop where
  need : p.need = p'.need
  around : p.around.length = p'.around.length

/-- Words that differ in the blanks inside of phrases only are both terms, or are the same. -/
theorem eq_or_terms_of_squeezed_eq {t t' : Token} (h : t.squeezed = t'.squeezed) :
    t = t' ∨ ∃ u u', t = .term u ∧ t' = .term u' := by
  cases t <;> cases t' <;> first | exact .inl rfl | exact .inr ⟨_, _, rfl, rfl⟩ | cases h

/-- Parsers at the same place take the same words, but for the terms. -/
theorem Alike.step {p p' : Parser} (h : Alike p p') {t t' : Token}
    (ht : t.squeezed = t'.squeezed) {q : Parser} (hq : p.step t = some q) :
    ∃ q', p'.step t' = some q' ∧ Alike q q' := by
  obtain ⟨around, level, need⟩ := p
  obtain ⟨around', level', need'⟩ := p'
  obtain ⟨hneed, haround⟩ := h
  obtain rfl : need = need' := hneed
  have haround' : around.length = around'.length := haround
  cases need with
  | operator =>
    rcases eq_or_terms_of_squeezed_eq ht with rfl | ⟨u, u', rfl, rfl⟩
    · cases t with
      | and | or =>
        obtain rfl := Option.some.inj hq
        exact ⟨_, rfl, rfl, haround'⟩
      | rparen =>
        cases around with
        | nil => cases hq
        | cons l around =>
          cases around' with
          | nil => cases haround'
          | cons l' around' =>
            obtain rfl := Option.some.inj hq
            exact ⟨_, rfl, rfl, Nat.succ.inj haround'⟩
      | term | not | lparen => cases hq
    · cases hq
  | operand | negated =>
    rcases eq_or_terms_of_squeezed_eq ht with rfl | ⟨u, u', rfl, rfl⟩
    · cases t with
      | term | not =>
        obtain rfl := Option.some.inj hq
        exact ⟨_, rfl, rfl, haround'⟩
      | lparen =>
        obtain rfl := Option.some.inj hq
        exact ⟨_, rfl, rfl, congrArg Nat.succ haround'⟩
      | and | or | rparen => cases hq
    · obtain rfl := Option.some.inj hq
      exact ⟨_, rfl, rfl, haround'⟩

theorem Alike.steps {p p' : Parser} (h : Alike p p') {ts ts' : List Token}
    (hts : ts.map Token.squeezed = ts'.map Token.squeezed) {q : Parser}
    (hq : p.steps ts = some q) : ∃ q', p'.steps ts' = some q' ∧ Alike q q' := by
  induction ts generalizing p p' ts' with
  | nil =>
    obtain rfl := List.map_eq_nil_iff.mp hts.symm
    obtain rfl := Option.some.inj hq
    exact ⟨p', rfl, h⟩
  | cons t ts ih =>
    obtain ⟨t', ts', rfl, ht, hts⟩ := List.map_eq_cons_iff.mp hts.symm
    rw [steps_cons] at hq
    obtain ⟨p₁, hp₁, hq⟩ := Option.bind_eq_some_iff.mp hq
    obtain ⟨p₁', hp₁', h₁⟩ := h.step ht.symm hp₁
    rw [steps_cons, hp₁']
    exact ih h₁ hts.symm hq

/-- Whether words read an expression does not depend on the blanks inside of phrases. -/
theorem exists_read?_of_squeezed_eq {ts ts' : List Token}
    (hts : ts.map Token.squeezed = ts'.map Token.squeezed) {e : Expr} (h : read? ts = some e) :
    ∃ e', read? ts' = some e' := by
  obtain ⟨q, hq, hfinish⟩ := Option.bind_eq_some_iff.mp h
  obtain ⟨q', hq', hneed, haround⟩ := Alike.steps (p := {}) ⟨rfl, rfl⟩ hts hq
  obtain ⟨around, level, need⟩ := q
  obtain ⟨around', level', need'⟩ := q'
  obtain rfl : need = need' := hneed
  cases need with
  | operator =>
    cases around with
    | nil =>
      obtain rfl : around' = [] := List.length_eq_zero_iff.mp haround.symm
      exact ⟨_, by rw [read?, hq']; rfl⟩
    | cons l around => cases hfinish
  | operand | negated => cases hfinish

end Parser

/-! ## Phrases of blanks only -/

theorem Text.eq_empty_of_squeeze_eq_empty {s : String} (h : squeeze s = "")
    (htrimmed : IsTrimmed s.toList) : s = "" := by
  have hlist := congrArg String.toList h
  rw [toList_squeeze, trimStart_of_isTrimmed htrimmed] at hlist
  cases hs : s.toList with
  | nil => exact String.toList_eq_nil_iff.mp hs
  | cons c cs =>
    have hc : isBlank c = false := htrimmed.head c (by rw [hs]; rfl)
    rw [hs, squeezeFrom_of_not_isBlank hc] at hlist
    cases hlist

/-- A phrase of blanks only stays one with single blanks, and no other phrase becomes one. -/
theorem Spells.isBlankPhrase_squeezed {cs : List Char} {ts : List Token} (h : Spells cs ts)
    {t : Token} (ht : t ∈ ts) : t.squeezed.isBlankPhrase = t.isBlankPhrase := by
  induction h with
  | nil => cases ht
  | gap _ _ ih => exact ih ht
  | symbol hc _ ih =>
    rcases List.mem_cons.mp ht with rfl | ht
    · rw [squeezed_of_ofSymbol? hc]
    · exact ih ht
  | @run w _ _ _ _ _ _ ih =>
    rcases List.mem_cons.mp ht with rfl | ht
    · rw [squeezed_ofRun]
    · exact ih ht
  | @phrase w _ _ _ _ _ ih =>
    rcases List.mem_cons.mp ht with rfl | ht
    · have htrimmed : Text.IsTrimmed (Text.lower (Text.trim (String.ofList w))).toList := by
        rw [Text.lower, String.toList_ofList]
        exact (Text.isTrimmed_trim _).lowerFrom
      have hempty : Text.squeeze (Text.lower (Text.trim (String.ofList w))) = "" ↔
          Text.lower (Text.trim (String.ofList w)) = "" :=
        ⟨fun h => Text.eq_empty_of_squeeze_eq_empty h htrimmed, fun h => by rw [h]; rfl⟩
      rw [Bool.eq_iff_iff]
      simpa [ofPhrase, squeezed, Term.squeezed, isBlankPhrase, Term.phrase] using hempty
    · exact ih ht

/-! ## Queries with one standard form -/

theorem exists_parse_of_form_eq {query query' : String}
    (hform : Text.lower (Text.squeeze query) = Text.lower (Text.squeeze query'))
    (h : Text.IsTidy query) (h' : Text.IsTidy query') {e : Expr} (hparse : parse query = .ok e) :
    ∃ e', parse query' = .ok e' := by
  obtain ⟨ts, hspells, hread, hblank⟩ := parse_eq_ok_iff.mp hparse
  obtain ⟨ts', hspells'⟩ : ∃ ts', Spells query'.toList ts' := by
    rw [Lexed.exists_spells_iff_closes, ← Lexed.closes_form h', ← hform, Lexed.closes_form h]
    exact Lexed.exists_spells_iff_closes.mp ⟨ts, hspells⟩
  have hwords := hspells.map_squeezed_eq hspells' hform
  obtain ⟨e', hread'⟩ := Parser.exists_read?_of_squeezed_eq hwords hread
  refine ⟨e', parse_eq_ok_iff.mpr ⟨ts', hspells', hread', fun t' ht' => ?_⟩⟩
  obtain ⟨t, ht, hsqueezed⟩ : ∃ t ∈ ts, t.squeezed = t'.squeezed :=
    List.mem_map.mp (hwords ▸ List.mem_map_of_mem ht')
  rw [← hspells'.isBlankPhrase_squeezed ht', ← hsqueezed, hspells.isBlankPhrase_squeezed ht]
  exact hblank t ht

/-- Of two tidy queries with one standard form both are read, or none is. -/
theorem exists_parse_iff_of_form_eq {query query' : String}
    (hform : Text.lower (Text.squeeze query) = Text.lower (Text.squeeze query'))
    (h : Text.IsTidy query) (h' : Text.IsTidy query') :
    (∃ e, parse query = .ok e) ↔ ∃ e', parse query' = .ok e' :=
  ⟨fun ⟨_, hparse⟩ => exists_parse_of_form_eq hform h h' hparse,
    fun ⟨_, hparse⟩ => exists_parse_of_form_eq hform.symm h' h hparse⟩

end PlaceSearch
