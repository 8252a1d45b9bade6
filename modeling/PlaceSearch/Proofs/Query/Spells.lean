import PlaceSearch.Proofs.Text.Trim
import PlaceSearch.Query.Split

/-!
# The words that a text spells

The words of a query are found twice, in two ways: the grammar cuts the text from its beginning
and refuses what is no word, a search for words passes over it.  Which words a text spells is
said here once, without offsets and modes.  Wherever the cutting comes to the end of the text,
both ways find the words that it spells.
-/

namespace PlaceSearch

open Token

attribute [simp] Lexed.scan Token.search

/-- The characters spell the words: symbols, runs and phrases with some text, one after the
other, gaps anywhere between them.  A run is as long as possible. -/
inductive Spells : List Char → List Token → Prop where
  | nil : Spells [] []
  | gap {c : Char} {cs : List Char} {ts : List Token} (hc : Text.isGap c = true)
      (h : Spells cs ts) : Spells (c :: cs) ts
  | symbol {c : Char} {t : Token} {cs : List Char} {ts : List Token}
      (hc : ofSymbol? c = some t) (h : Spells cs ts) : Spells (c :: cs) (t :: ts)
  | run {w cs : List Char} {ts : List Token} (hne : w ≠ []) (hw : ∀ c ∈ w, isRunChar c = true)
      (hcs : ∀ c ∈ cs.head?, isRunChar c = false) (h : Spells cs ts) :
      Spells (w ++ cs) (ofRun w :: ts)
  | phrase {w cs : List Char} {ts : List Token} (hne : w ≠ []) (hw : '@' ∉ w)
      (h : Spells cs ts) : Spells ('@' :: (w ++ '@' :: cs)) (ofPhrase w :: ts)

/-! ## Classes of characters -/

theorem not_isRunChar_of_isGap {c : Char} (h : Text.isGap c = true) : isRunChar c = false := by
  simp only [Text.isGap, Bool.or_eq_true, beq_iff_eq] at h
  rcases h with ((rfl | rfl) | rfl) | rfl <;> decide

theorem not_isGap_of_isRunChar {c : Char} (h : isRunChar c = true) : Text.isGap c = false := by
  rw [← Bool.not_eq_true]
  intro hgap
  rw [not_isRunChar_of_isGap hgap] at h
  cases h

/-- The characters of the symbols begin no other word. -/
theorem spec_of_ofSymbol? {c : Char} {t : Token} (h : ofSymbol? c = some t) :
    Text.isGap c = false ∧ isRunChar c = false ∧ c ≠ '@' := by
  unfold ofSymbol? at h
  split at h
  case h_6 => cases h
  all_goals decide

/-! ## The cutting of the grammar -/

namespace Lexed

/-- The characters that were read last and belong to no finished word. -/
def Mode.pending : Mode → List Char
  | .idle => []
  | .run w _ => w.reverse
  | .phrase w _ => '@' :: w.reverse

/-- The characters that were read last may stand in an unfinished word. -/
def Mode.Proper : Mode → Prop
  | .idle => True
  | .run w _ => w ≠ [] ∧ ∀ c ∈ w, isRunChar c = true
  | .phrase w _ => '@' ∉ w

@[simp]
theorem Mode.pending_idle : Mode.idle.pending = [] :=
  rfl

@[simp]
theorem Mode.pending_run (w : List Char) (n : Nat) : (Mode.run w n).pending = w.reverse :=
  rfl

@[simp]
theorem Mode.pending_phrase (w : List Char) (n : Nat) :
    (Mode.phrase w n).pending = '@' :: w.reverse :=
  rfl

/-- The words of a text, without their places. -/
def words (r : Lexed) : List Token :=
  r.tokens.map (·.1)

@[simp]
theorem words_cons (t : Token) (n : Nat) (r : Lexed) : (r.cons t n).words = t :: r.words :=
  rfl

@[simp]
theorem stop_cons (t : Token) (n : Nat) (r : Lexed) : (r.cons t n).stop = r.stop :=
  rfl

/-- One more character in front, if every way to go on with the rest spells what it gives. -/
theorem spells_begin {c : Char} {n : Nat} {rest : Mode → Lexed} {cs : List Char}
    (hrest : ∀ mode : Mode, mode.Proper → (rest mode).stop = .finished →
      Spells (mode.pending ++ cs) (rest mode).words)
    (h : (begin c n rest).stop = .finished) : Spells (c :: cs) (begin c n rest).words := by
  rw [begin] at h ⊢
  split at h
  · next hgap =>
    rw [if_pos hgap]
    exact .gap hgap (hrest .idle trivial h)
  · next hgap =>
    rw [if_neg hgap]
    split at h
    · next hrun =>
      rw [if_pos hrun]
      exact hrest (.run [c] n) ⟨by simp, by simpa using hrun⟩ h
    · next hrun =>
      rw [if_neg hrun]
      split at h
      · next hat =>
        rw [if_pos hat, hat]
        exact hrest (.phrase [] n) (by simp [Mode.Proper]) h
      · next hat =>
        rw [if_neg hat]
        split at h
        · next t ht =>
          exact .symbol ht (hrest .idle trivial h)
        · cases h

theorem spells_scan {cs : List Char} {mode : Mode} {n : Nat} (hmode : mode.Proper)
    (h : (scan mode n cs).stop = .finished) :
    Spells (mode.pending ++ cs) (scan mode n cs).words := by
  induction cs generalizing mode n with
  | nil =>
    cases mode with
    | idle => exact .nil
    | run w start =>
      have hnone : ∀ c ∈ ([] : List Char).head?, isRunChar c = false := by simp
      have hrun : Spells (w.reverse ++ []) [ofRun w.reverse] :=
        .run (by simpa using hmode.1) (by simpa using hmode.2) hnone .nil
      rw [scan, words_cons, Mode.pending_run]
      exact hrun
    | phrase w start =>
      rw [scan] at h
      split at h <;> cases h
  | cons c cs ih =>
    have hbegin : ∀ n, (scan .idle n (c :: cs)).stop = .finished →
        Spells (c :: cs) (scan .idle n (c :: cs)).words := fun n h =>
      spells_begin (fun mode hmode hstop => ih hmode hstop) h
    cases mode with
    | idle => exact hbegin n h
    | run w start =>
      obtain ⟨hne, hw⟩ := hmode
      rw [scan] at h ⊢
      split at h
      · next hc =>
        rw [if_pos hc]
        have hproper : (Mode.run (c :: w) start).Proper := by
          refine ⟨by simp, ?_⟩
          simpa [hc] using hw
        simpa [Mode.pending] using ih hproper h
      · next hc =>
        rw [if_neg hc]
        have hstop : ∀ d ∈ (c :: cs).head?, isRunChar d = false := by simpa using hc
        have hrun : Spells (w.reverse ++ c :: cs)
            (ofRun w.reverse :: (scan .idle n (c :: cs)).words) :=
          .run (by simpa using hne) (by simpa using hw) hstop (hbegin n h)
        rw [scan] at hrun
        simpa only [words_cons, Mode.pending_run] using hrun
    | phrase w start =>
      rw [scan] at h ⊢
      split at h
      · next hat =>
        rw [if_pos hat]
        split at h
        · cases h
        · next hne =>
          rw [if_neg hne, hat]
          have hidle : Mode.idle.Proper := trivial
          have hmode' : '@' ∉ w.reverse := mt List.mem_reverse.mp hmode
          simpa using Spells.phrase (by simpa using hne) hmode' (ih hidle h)
      · next hat =>
        rw [if_neg hat]
        have hproper : (Mode.phrase (c :: w) start).Proper :=
          List.not_mem_cons_of_ne_of_not_mem (Ne.symm hat) hmode
        simpa [Mode.pending] using ih hproper h

/-- A run is read to its end. -/
theorem scan_run {w : List Char} (hw : ∀ c ∈ w, isRunChar c = true) (acc : List Char)
    (start n : Nat) (cs : List Char) :
    scan (.run acc start) n (w ++ cs) =
      scan (.run (w.reverse ++ acc) start) (n + w.length) cs := by
  induction w generalizing acc n with
  | nil => rfl
  | cons c w ih =>
    obtain ⟨hc, hw⟩ := List.forall_mem_cons.mp hw
    rw [List.cons_append, scan, if_pos hc, ih hw, List.reverse_cons, List.append_assoc,
      List.singleton_append, List.length_cons, Nat.add_right_comm, Nat.add_assoc]

/-- Behind a run the cutting goes on as if nothing had been read. -/
theorem scan_run_stop {cs : List Char} (hcs : ∀ c ∈ cs.head?, isRunChar c = false)
    (acc : List Char) (start n : Nat) :
    scan (.run acc start) n cs = (scan .idle n cs).cons (ofRun acc.reverse) start := by
  cases cs with
  | nil => rfl
  | cons c cs =>
    have hc : ¬isRunChar c = true := by simpa using hcs c rfl
    rw [scan, scan, if_neg hc]

/-- A phrase is read to the `@` at its end. -/
theorem scan_phrase {w : List Char} (hw : '@' ∉ w) (acc : List Char) (start n : Nat)
    (cs : List Char) :
    scan (.phrase acc start) n (w ++ cs) =
      scan (.phrase (w.reverse ++ acc) start) (n + w.length) cs := by
  induction w generalizing acc n with
  | nil => rfl
  | cons c w ih =>
    rw [List.mem_cons, not_or] at hw
    rw [List.cons_append, scan, if_neg (Ne.symm hw.1), ih hw.2, List.reverse_cons,
      List.append_assoc, List.singleton_append, List.length_cons, Nat.add_right_comm,
      Nat.add_assoc]

end Lexed

/-- The cutting comes to the end of a text that spells words, and finds them. -/
theorem Spells.scan {cs : List Char} {ts : List Token} (h : Spells cs ts) (n : Nat) :
    (Lexed.scan .idle n cs).stop = .finished ∧ (Lexed.scan .idle n cs).words = ts := by
  induction h generalizing n with
  | nil => exact ⟨rfl, rfl⟩
  | gap hc _ ih =>
    rw [Lexed.scan, Lexed.begin, if_pos hc]
    exact ih (n + 1)
  | @symbol c t cs ts hc _ ih =>
    obtain ⟨hgap, hrun, hat⟩ := spec_of_ofSymbol? hc
    obtain ⟨hstop, hwords⟩ := ih (n + 1)
    have hscan : Lexed.scan .idle n (c :: cs) = (Lexed.scan .idle (n + 1) cs).cons t n := by
      simp [Lexed.begin, hgap, hrun, hat, hc]
    rw [hscan, Lexed.stop_cons, Lexed.words_cons, hwords]
    exact ⟨hstop, rfl⟩
  | @run w cs ts hne hw hcs _ ih =>
    obtain ⟨c, w, rfl⟩ := List.exists_cons_of_ne_nil hne
    obtain ⟨hc, hw⟩ := List.forall_mem_cons.mp hw
    obtain ⟨hstop, hwords⟩ := ih (n + 1 + w.length)
    have hscan : Lexed.scan .idle n (c :: w ++ cs) =
        (Lexed.scan .idle (n + 1 + w.length) cs).cons (ofRun (c :: w)) n := by
      rw [List.cons_append, Lexed.scan, Lexed.begin, not_isGap_of_isRunChar hc,
        if_neg (by simp), if_pos hc, Lexed.scan_run hw, Lexed.scan_run_stop hcs,
        List.reverse_append, List.reverse_reverse, List.reverse_singleton,
        List.singleton_append]
    rw [hscan, Lexed.stop_cons, Lexed.words_cons, hwords]
    exact ⟨hstop, rfl⟩
  | @phrase w cs ts hne hw _ ih =>
    obtain ⟨hstop, hwords⟩ := ih (n + 1 + w.length + 1)
    have hscan : Lexed.scan .idle n ('@' :: (w ++ '@' :: cs)) =
        (Lexed.scan .idle (n + 1 + w.length + 1) cs).cons (ofPhrase w) n := by
      have hempty : ¬(w.reverse ++ []).isEmpty = true := by simpa using hne
      rw [Lexed.scan, Lexed.begin, if_neg (by decide), if_neg (by decide), if_pos rfl,
        Lexed.scan_phrase hw, Lexed.scan, if_pos rfl, if_neg hempty, List.append_nil,
        List.reverse_reverse]
    rw [hscan, Lexed.stop_cons, Lexed.words_cons, hwords]
    exact ⟨hstop, rfl⟩

/-! ## The search for words -/

namespace Token

theorem search_run {w : List Char} (hw : ∀ c ∈ w, isRunChar c = true) (acc cs : List Char) :
    search (.run acc) (w ++ cs) = search (.run (w.reverse ++ acc)) cs := by
  induction w generalizing acc with
  | nil => rfl
  | cons c w ih =>
    obtain ⟨hc, hw⟩ := List.forall_mem_cons.mp hw
    rw [List.cons_append, search, if_pos hc, ih hw, List.reverse_cons, List.append_assoc,
      List.singleton_append]

theorem search_run_stop {cs : List Char} (hcs : ∀ c ∈ cs.head?, isRunChar c = false)
    (acc : List Char) : search (.run acc) cs = ofRun acc.reverse :: search .none cs := by
  cases cs with
  | nil => rfl
  | cons c cs =>
    have hc : ¬isRunChar c = true := by simpa using hcs c rfl
    rw [search, search, if_neg hc]

theorem search_quoted {w : List Char} (hw : '@' ∉ w) (acc cs : List Char) :
    search (.quoted acc) (w ++ cs) = search (.quoted (w.reverse ++ acc)) cs := by
  induction w generalizing acc with
  | nil => rfl
  | cons c w ih =>
    rw [List.mem_cons, not_or] at hw
    rw [List.cons_append, search, if_neg (Ne.symm hw.1), ih hw.2, List.reverse_cons,
      List.append_assoc, List.singleton_append]

/-- A text without `@` begins with none to drop. -/
theorem dropWhile_at {w : List Char} (hw : '@' ∉ w) : w.dropWhile (· == '@') = w := by
  cases w with
  | nil => rfl
  | cons c w =>
    have hc : c ≠ '@' := by
      rintro rfl
      exact hw List.mem_cons_self
    simp [hc]

theorem withoutAts_quoted {w : List Char} (hw : '@' ∉ w) :
    withoutAts (String.ofList ('@' :: (w ++ ['@']))) = String.ofList w := by
  have hfront : ('@' :: (w ++ ['@'])).dropWhile (· == '@') = (w ++ ['@']).dropWhile (· == '@') :=
    rfl
  rw [withoutAts, String.toList_ofList, hfront]
  by_cases hnil : w = []
  · subst hnil
    rfl
  · have hkeep : (w ++ ['@']).dropWhile (· == '@') = w ++ ['@'] := by
      obtain ⟨c, v, rfl⟩ := List.exists_cons_of_ne_nil hnil
      have hc : c ≠ '@' := by
        rintro rfl
        exact hw List.mem_cons_self
      simp [hc]
    have hback : (w ++ ['@']).reverse.dropWhile (· == '@') = w.reverse.dropWhile (· == '@') := by
      simp
    rw [hkeep, hback, dropWhile_at (mt List.mem_reverse.mp hw), List.reverse_reverse]

/-- A match between two `@` and the phrase between them read the same: the `@` stand in the
way of neither the final sigma nor the trimming. -/
theorem ofQuoted_eq_ofPhrase {w : List Char} (hw : '@' ∉ w) :
    ofQuoted ('@' :: (w ++ ['@'])) = ofPhrase w := by
  have huncased : ∀ c ∈ ['@'], Text.isCased c = false :=
    List.forall_mem_singleton.mpr Text.isCased_at
  have hat : ∀ before after, Text.lowerAt before '@' after = ['@'] := fun before after => by
    rw [Text.lowerAt, if_neg (by decide), Text.lowerChar_at]
  have hbefore : Text.lowerFrom ['@'] w = Text.lowerFrom [] w := by
    rw [← List.nil_append ['@'], Text.lowerFrom_before huncased]
  have hlower : Text.lower (String.ofList ('@' :: (w ++ ['@']))) =
      String.ofList ('@' :: (Text.lowerFrom [] w ++ ['@'])) := by
    rw [Text.lower, String.toList_ofList, Text.lowerFrom_cons, hat,
      Text.lowerFrom_append huncased, Text.lowerFrom_cons, hat, hbefore]
    rfl
  rw [ofQuoted, hlower, withoutAts_quoted (Text.at_not_mem_lowerFrom hw), ofPhrase,
    ← Text.trim_lower, Text.lower, String.toList_ofList]

end Token

/-- The search finds the words that a text spells. -/
theorem Spells.search {cs : List Char} {ts : List Token} (h : Spells cs ts) :
    Token.search .none cs = ts := by
  induction h with
  | nil => rfl
  | @gap c cs ts hc _ ih =>
    have hrun : isRunChar c = false := not_isRunChar_of_isGap hc
    have hat : c ≠ '@' := by
      rintro rfl
      exact absurd hc (by decide)
    have hsymbol : ofSymbol? c = none := by
      cases hsymbol : ofSymbol? c with
      | none => rfl
      | some t => simp [(spec_of_ofSymbol? hsymbol).1] at hc
    simp [searchFrom, hrun, hat, hsymbol, ih]
  | @symbol c t cs ts hc _ ih =>
    obtain ⟨hgap, hrun, hat⟩ := spec_of_ofSymbol? hc
    simp [searchFrom, hrun, hat, hc, ih]
  | @run w cs ts hne hw hcs _ ih =>
    obtain ⟨c, w, rfl⟩ := List.exists_cons_of_ne_nil hne
    obtain ⟨hc, hw⟩ := List.forall_mem_cons.mp hw
    rw [List.cons_append, Token.search, searchFrom, if_pos hc, search_run hw,
      search_run_stop hcs, ih, List.reverse_append, List.reverse_reverse,
      List.reverse_singleton, List.singleton_append]
  | @phrase w cs ts hne hw _ ih =>
    have hclosed : (w ++ '@' :: cs).contains '@' = true := by simp
    rw [Token.search, searchFrom, if_neg (by decide), if_pos rfl, if_pos hclosed,
      search_quoted hw, Token.search, if_pos rfl, ih, List.reverse_cons, List.reverse_append,
      List.reverse_reverse, List.reverse_singleton, List.singleton_append, List.cons_append,
      ofQuoted_eq_ofPhrase hw]

end PlaceSearch
