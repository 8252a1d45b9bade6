import PlaceSearch.Proofs.Query.Grammar

/-!
# Words and productions

What is a query is said here in two steps, without a word on how one is read.  A text is cut into
lexemes: symbols, words that are as long as they can be, and phrases between two `@`, with blanks
anywhere between them.  A word is an operator if it spells one in any letter case, and a category
otherwise.  Lexemes are put together by the productions

    disjunction := conjunction (OR conjunction)*
    conjunction := negation (AND negation)*
    negation    := NOT* primary
    primary     := phrase | category | ( disjunction )

and each production says which expression it makes.

The parser cuts a text into the same words and takes those that can be produced.
-/

namespace PlaceSearch

/-- A part of a query, with the characters of a category and those between the `@` of a phrase. -/
inductive Lexeme where
  | lparen
  | rparen
  | and
  | or
  | not
  | category (w : List Char)
  | phrase (w : List Char)
deriving DecidableEq, Repr

/-- The characters of words. -/
def IsWordChar (c : Char) : Prop :=
  ('a' ≤ c ∧ c ≤ 'z') ∨ ('A' ≤ c ∧ c ≤ 'Z') ∨ ('0' ≤ c ∧ c ≤ '9') ∨ c = '_' ∨ c = '-'

instance (c : Char) : Decidable (IsWordChar c) :=
  inferInstanceAs (Decidable (_ ∨ _ ∨ _ ∨ _ ∨ _))

namespace Lexeme

/-- A word is an operator if it spells one in any letter case. -/
def ofWord (w : List Char) : Lexeme :=
  if w.map Char.toLower = "and".toList then .and
  else if w.map Char.toLower = "or".toList then .or
  else if w.map Char.toLower = "not".toList then .not
  else .category w

/-- The symbols. -/
def symbols : List (Char × Lexeme) :=
  [('(', .lparen), (')', .rparen), ('&', .and), ('|', .or), ('~', .not)]

/-- A phrase of which every character is a blank of Unicode. -/
def IsBlank : Lexeme → Prop
  | .phrase w => ∀ c ∈ w, Text.isBlank c = true
  | _ => False

instance : DecidablePred IsBlank
  | .phrase w => inferInstanceAs (Decidable (∀ c ∈ w, Text.isBlank c = true))
  | .lparen | .rparen | .and | .or | .not | .category _ => inferInstanceAs (Decidable False)

end Lexeme

/-- A text begins with a lexeme, which is as long as it can be, and goes on behind it. -/
inductive Begins : List Char → Lexeme → List Char → Prop where
  | symbol {c : Char} {l : Lexeme} (hc : (c, l) ∈ Lexeme.symbols) (cs : List Char) :
    Begins (c :: cs) l cs
  | word {w cs : List Char} (hne : w ≠ []) (hw : ∀ c ∈ w, IsWordChar c)
      (hend : ∀ c ∈ cs.head?, ¬IsWordChar c) : Begins (w ++ cs) (.ofWord w) cs
  | phrase {w : List Char} (hne : w ≠ []) (hw : '@' ∉ w) (cs : List Char) :
    Begins ('@' :: (w ++ '@' :: cs)) (.phrase w) cs

/-- The characters that may stand between lexemes. -/
def whites : List Char :=
  [' ', '\t', '\r', '\n']

/-- A text is cut into lexemes up to a rest of it. -/
inductive Cuts : List Char → List Lexeme → List Char → Prop where
  | stop (cs : List Char) : Cuts cs [] cs
  | white {c : Char} {cs cs' : List Char} {ls : List Lexeme} (hc : c ∈ whites)
      (h : Cuts cs ls cs') : Cuts (c :: cs) ls cs'
  | next {cs cs₁ cs' : List Char} {l : Lexeme} {ls : List Lexeme} (hl : Begins cs l cs₁)
      (h : Cuts cs₁ ls cs') : Cuts cs (l :: ls) cs'

/-- The lexemes that a nonterminal produces, and the expression that they make: of the negations in
front of a primary only the parity counts, one operand stands for itself, phrases are trimmed, and
all texts are in lower case. -/
inductive Produces : Nonterminal → List Lexeme → Expr → Prop where
  | category (w : List Char) :
    Produces .primary [.category w] (.atom (.category (Text.lower (String.ofList w))))
  | phrase (w : List Char) :
    Produces .primary [.phrase w] (.atom (.phrase (Text.lower (Text.trim (String.ofList w)))))
  | group {ls : List Lexeme} {e : Expr} (h : Produces .disjunction ls e) :
    Produces .primary (.lparen :: (ls ++ [.rparen])) e
  | negation {ls : List Lexeme} {e : Expr} (n : Nat) (h : Produces .primary ls e) :
    Produces .negation (List.replicate n .not ++ ls) (if n % 2 = 1 then .not e else e)
  | conjunction {ls : List Lexeme} {e : Expr} {rest : List (List Lexeme × Expr)}
      (h : Produces .negation ls e) (hrest : ∀ x ∈ rest, Produces .negation x.1 x.2) :
    Produces .conjunction (ls ++ rest.flatMap fun x => .and :: x.1)
      (if rest = [] then e else .and (e :: rest.map (·.2)))
  | disjunction {ls : List Lexeme} {e : Expr} {rest : List (List Lexeme × Expr)}
      (h : Produces .conjunction ls e) (hrest : ∀ x ∈ rest, Produces .conjunction x.1 x.2) :
    Produces .disjunction (ls ++ rest.flatMap fun x => .or :: x.1)
      (if rest = [] then e else .or (e :: rest.map (·.2)))

theorem Cuts.append {cs cs₁ cs₂ : List Char} {ls ls' : List Lexeme} (h : Cuts cs ls cs₁)
    (h' : Cuts cs₁ ls' cs₂) : Cuts cs (ls ++ ls') cs₂ := by
  induction h with
  | stop => exact h'
  | white hc _ ih => exact .white hc (ih h')
  | next hl _ ih => exact .next hl (ih h')

/-! ## The words of the parser -/

theorem isAlphanum_iff {c : Char} : c.isAlphanum = true ↔
    ('A' ≤ c ∧ c ≤ 'Z') ∨ ('a' ≤ c ∧ c ≤ 'z') ∨ ('0' ≤ c ∧ c ≤ '9') := by
  have hdef : c.isAlphanum = (decide ('A' ≤ c ∧ c ≤ 'Z') ||
      (decide ('a' ≤ c) && decide (c ≤ 'z')) || (decide ('0' ≤ c) && decide (c ≤ '9'))) := rfl
  simp [hdef, or_assoc]

theorem isWordChar_iff {c : Char} : IsWordChar c ↔ Token.isRunChar c = true := by
  rw [Token.isRunChar, Bool.or_eq_true, Bool.or_eq_true, isAlphanum_iff, beq_iff_eq, beq_iff_eq,
    IsWordChar]
  tauto

namespace Lexeme

/-- The word of the parser for a lexeme. -/
def token : Lexeme → Token
  | .lparen => .lparen
  | .rparen => .rparen
  | .and => .and
  | .or => .or
  | .not => .not
  | .category w => .term (.category (Text.lower (String.ofList w)))
  | .phrase w => .term (.phrase (Text.lower (Text.trim (String.ofList w))))

theorem ofWord_cases (w : List Char) :
    ofWord w = .and ∨ ofWord w = .or ∨ ofWord w = .not ∨ ofWord w = .category w := by
  unfold ofWord
  grind

theorem toNat_lt_of_isWordChar {c : Char} (h : IsWordChar c) : c.toNat < 0x80 :=
  Token.toNat_lt_of_isRunChar (isWordChar_iff.mp h)

/-- A word in lower case, character by character. -/
theorem lower_word {w : List Char} (hw : ∀ c ∈ w, IsWordChar c) :
    Text.lower (String.ofList w) = String.ofList (w.map Char.toLower) := by
  have hlower : ∀ before, Text.lowerFrom before w = w.map Char.toLower := by
    induction w with
    | nil => exact fun _ => rfl
    | cons c w ih =>
      obtain ⟨hc, hw⟩ := List.forall_mem_cons.mp hw
      intro before
      have hascii := toNat_lt_of_isWordChar hc
      have hsigma : c ≠ 'Σ' := by
        rintro rfl
        exact absurd hascii (by decide)
      rw [Text.lowerFrom, if_neg hsigma, Text.lowerChar, if_pos hascii, ih hw]
      rfl
  rw [Text.lower, String.toList_ofList, hlower]

/-- The parser tells words apart in the same way. -/
theorem token_ofWord {w : List Char} (hw : ∀ c ∈ w, IsWordChar c) :
    (ofWord w).token = Token.ofRun w := by
  have hspells : ∀ v : String,
      Text.lower (String.ofList w) = v ↔ w.map Char.toLower = v.toList := by
    intro v
    rw [lower_word hw, ← String.toList_inj, String.toList_ofList]
  rw [Token.ofRun, ofWord]
  simp only [hspells]
  split
  · rfl
  · split
    · rfl
    · split <;> rfl

theorem token_symbol {c : Char} {l : Lexeme} (h : (c, l) ∈ symbols) :
    Token.ofSymbol? c = some l.token := by
  simp only [symbols, List.mem_cons, Prod.mk.injEq, List.not_mem_nil, or_false] at h
  rcases h with ⟨rfl, rfl⟩ | ⟨rfl, rfl⟩ | ⟨rfl, rfl⟩ | ⟨rfl, rfl⟩ | ⟨rfl, rfl⟩ <;> rfl

theorem exists_symbol {c : Char} {t : Token} (h : Token.ofSymbol? c = some t) :
    ∃ l, (c, l) ∈ symbols ∧ l.token = t := by
  unfold Token.ofSymbol? at h
  split at h
  case h_6 => cases h
  all_goals
    obtain rfl := Option.some.inj h
  · exact ⟨.and, by simp [symbols], rfl⟩
  · exact ⟨.or, by simp [symbols], rfl⟩
  · exact ⟨.not, by simp [symbols], rfl⟩
  · exact ⟨.lparen, by simp [symbols], rfl⟩
  · exact ⟨.rparen, by simp [symbols], rfl⟩

end Lexeme

theorem isGap_iff {c : Char} : Text.isGap c = true ↔ c ∈ whites := by
  simp [Text.isGap, whites, or_assoc]

theorem Begins.spells {cs cs' : List Char} {l : Lexeme} {ts : List Token} (h : Begins cs l cs')
    (hts : Spells cs' ts) : Spells cs (l.token :: ts) := by
  cases h with
  | symbol hc => exact .symbol (Lexeme.token_symbol hc) hts
  | word hne hw hend =>
    rw [Lexeme.token_ofWord hw]
    refine .run hne (fun c hc => isWordChar_iff.mp (hw c hc)) (fun c hc => ?_) hts
    exact Bool.eq_false_iff.mpr (mt isWordChar_iff.mpr (hend c hc))
  | phrase hne hw => exact .phrase hne hw hts

theorem Cuts.spells {cs : List Char} {ls : List Lexeme} (h : Cuts cs ls []) :
    Spells cs (ls.map Lexeme.token) := by
  generalize hcs' : ([] : List Char) = cs' at h
  induction h with
  | stop =>
    subst hcs'
    exact .nil
  | white hc _ ih => exact .gap (isGap_iff.mpr hc) (ih hcs')
  | next hl _ ih => exact hl.spells (ih hcs')

theorem Spells.exists_cuts {cs : List Char} {ts : List Token} (h : Spells cs ts) :
    ∃ ls, Cuts cs ls [] ∧ ls.map Lexeme.token = ts := by
  induction h with
  | nil => exact ⟨[], .stop [], rfl⟩
  | gap hc _ ih =>
    obtain ⟨ls, hcuts, hls⟩ := ih
    exact ⟨ls, .white (isGap_iff.mp hc) hcuts, hls⟩
  | symbol hc _ ih =>
    obtain ⟨ls, hcuts, rfl⟩ := ih
    obtain ⟨l, hl, rfl⟩ := Lexeme.exists_symbol hc
    exact ⟨l :: ls, .next (.symbol hl _) hcuts, rfl⟩
  | @run w cs ts hne hw hcs _ ih =>
    obtain ⟨ls, hcuts, rfl⟩ := ih
    have hword : ∀ c ∈ w, IsWordChar c := fun c hc => isWordChar_iff.mpr (hw c hc)
    have hend : ∀ c ∈ cs.head?, ¬IsWordChar c := fun c hc h => by
      rw [isWordChar_iff, hcs c hc] at h
      cases h
    exact ⟨_, .next (.word hne hword hend) hcuts, by rw [List.map_cons, Lexeme.token_ofWord hword]⟩
  | phrase hne hw _ ih =>
    obtain ⟨ls, hcuts, rfl⟩ := ih
    exact ⟨_, .next (.phrase hne hw _) hcuts, rfl⟩

/-- A phrase of blanks only is one for the parser too, and there are no others. -/
theorem Begins.isBlankPhrase_iff {cs cs' : List Char} {l : Lexeme} (h : Begins cs l cs') :
    l.token.isBlankPhrase = true ↔ l.IsBlank := by
  cases h with
  | symbol hc =>
    simp only [Lexeme.symbols, List.mem_cons, Prod.mk.injEq, List.not_mem_nil, or_false] at hc
    rcases hc with ⟨-, rfl⟩ | ⟨-, rfl⟩ | ⟨-, rfl⟩ | ⟨-, rfl⟩ | ⟨-, rfl⟩ <;>
      simp [Lexeme.token, Token.isBlankPhrase, Lexeme.IsBlank]
  | @word w _ hne =>
    have hnot : ¬(Text.lower (String.ofList w)).isEmpty = true := by
      rwa [String.isEmpty_iff, Text.lower_eq_empty_iff, String.ofList_eq_empty_iff]
    rcases Lexeme.ofWord_cases w with h | h | h | h <;> rw [h]
    case inr.inr.inr => exact iff_of_false hnot id
    all_goals simp [Lexeme.token, Token.isBlankPhrase, Lexeme.IsBlank]
  | phrase => exact Token.isBlankPhrase_ofPhrase

theorem Cuts.isBlankPhrase_iff {cs cs' : List Char} {ls : List Lexeme} (h : Cuts cs ls cs') :
    ∀ l ∈ ls, l.token.isBlankPhrase = true ↔ l.IsBlank := by
  induction h with
  | stop => exact nofun
  | white _ _ ih => exact ih
  | next hl _ ih => exact List.forall_mem_cons.mpr ⟨hl.isBlankPhrase_iff, ih⟩

/-! ## Productions and derivations -/

/-- The lexemes of a part as words of the parser, with the expression that they make. -/
def Lexeme.tokens (x : List Lexeme × Expr) : List Token × Expr :=
  (x.1.map token, x.2)

theorem Lexeme.map_snd_tokens (xs : List (List Lexeme × Expr)) :
    (xs.map tokens).map (·.2) = xs.map (·.2) :=
  List.map_map

/-- Parts with an operator between each two, as one part and then operators with a part each. -/
theorem intercalate_map_tokens (op : Lexeme) (x : List Lexeme × Expr)
    (rest : List (List Lexeme × Expr)) :
    [op.token].intercalate (((x :: rest).map Lexeme.tokens).map (·.1)) =
      (x.1 ++ rest.flatMap fun y => op :: y.1).map Lexeme.token := by
  induction rest generalizing x with
  | nil => simp [Lexeme.tokens]
  | cons y rest ih =>
    rw [List.map_cons, List.map_cons, List.intercalate_cons_of_ne_nil (by simp), ih]
    simp [Lexeme.tokens]

theorem conjunction_cons (e : Expr) (rest : List (List Lexeme × Expr)) :
    Expr.conjunction (e :: rest.map (·.2)) =
      if rest = [] then e else .and (e :: rest.map (·.2)) := by
  cases rest <;> rfl

theorem disjunction_cons (e : Expr) (rest : List (List Lexeme × Expr)) :
    Expr.disjunction (e :: rest.map (·.2)) =
      if rest = [] then e else .or (e :: rest.map (·.2)) := by
  cases rest <;> rfl

/-- What can be produced can be derived. -/
theorem Produces.derives {n : Nonterminal} {ls : List Lexeme} {e : Expr} (h : Produces n ls e) :
    Derives n (ls.map Lexeme.token) e := by
  induction h with
  | category => exact .term _
  | phrase => exact .term _
  | group _ ih =>
    rw [List.map_cons, List.map_append]
    exact .group ih
  | negation n _ ih =>
    rw [List.map_append, List.map_replicate]
    exact .negation n ih
  | @conjunction ls e rest _ _ ih ihrest =>
    have hparts : ∀ x ∈ ((ls, e) :: rest).map Lexeme.tokens, Derives .negation x.1 x.2 :=
      List.forall_mem_map.mpr (List.forall_mem_cons.mpr ⟨ih, ihrest⟩)
    have hderives := Derives.conjunction (by simp) hparts
    rw [Lexeme.map_snd_tokens] at hderives
    rw [← conjunction_cons, ← intercalate_map_tokens .and (ls, e)]
    exact hderives
  | @disjunction ls e rest _ _ ih ihrest =>
    have hparts : ∀ x ∈ ((ls, e) :: rest).map Lexeme.tokens, Derives .conjunction x.1 x.2 :=
      List.forall_mem_map.mpr (List.forall_mem_cons.mpr ⟨ih, ihrest⟩)
    have hderives := Derives.disjunction (by simp) hparts
    rw [Lexeme.map_snd_tokens] at hderives
    rw [← disjunction_cons, ← intercalate_map_tokens .or (ls, e)]
    exact hderives

/-- Lexemes that are the words of some parts can be taken apart as they are. -/
theorem exists_parts {op : Lexeme} (hop : ∀ l : Lexeme, l.token = op.token → l = op)
    {parts : List (List Token × Expr)} (hne : parts ≠ []) {ls : List Lexeme}
    (h : [op.token].intercalate (parts.map (·.1)) = ls.map Lexeme.token) :
    ∃ x rest, parts = (x :: rest).map Lexeme.tokens ∧
      ls = x.1 ++ rest.flatMap fun y => op :: y.1 := by
  induction parts generalizing ls with
  | nil => exact absurd rfl hne
  | cons p parts ih =>
    cases parts with
    | nil =>
      refine ⟨(ls, p.2), [], ?_, by simp⟩
      simpa [Lexeme.tokens, Prod.ext_iff] using h
    | cons p' parts =>
      rw [List.map_cons, List.intercalate_cons_of_ne_nil (by simp), List.append_assoc, eq_comm,
        List.map_eq_append_iff] at h
      obtain ⟨us, vs, rfl, hus, hvs⟩ := h
      obtain ⟨l, ws, rfl, hl, hws⟩ := List.map_eq_cons_iff.mp hvs
      obtain rfl := hop l hl
      obtain ⟨x, rest, hparts, rfl⟩ := ih (by simp) hws.symm
      refine ⟨(us, p.2), x :: rest, ?_, by simp⟩
      rw [hparts]
      simp [Lexeme.tokens, hus]

/-- Only categories and phrases are read as terms, and every other word from one lexeme. -/
theorem Lexeme.eq_of_token_eq {l l' : Lexeme} (h : l.token = l'.token)
    (hl' : ∀ t, l'.token ≠ .term t) : l = l' := by
  cases l' with
  | category | phrase => exact absurd rfl (hl' _)
  | lparen | rparen | and | or | not => cases l <;> first | rfl | simp [token] at h

/-- What can be derived can be produced. -/
theorem Derives.produces {n : Nonterminal} {ts : List Token} {e : Expr} (h : Derives n ts e)
    {ls : List Lexeme} (hls : ts = ls.map Lexeme.token) : Produces n ls e := by
  induction h generalizing ls with
  | term t =>
    obtain ⟨l, rfl, hl⟩ := List.map_eq_singleton_iff.mp hls.symm
    cases l with
    | category w =>
      obtain rfl := Token.term.inj hl
      exact .category w
    | phrase w =>
      obtain rfl := Token.term.inj hl
      exact .phrase w
    | _ => cases hl
  | group _ ih =>
    obtain ⟨l, us, rfl, hl, hus⟩ := List.map_eq_cons_iff.mp hls.symm
    obtain ⟨vs, ws, rfl, hvs, hws⟩ := List.map_eq_append_iff.mp hus
    obtain ⟨l', rfl, hl'⟩ := List.map_eq_singleton_iff.mp hws
    obtain rfl : l = .lparen := Lexeme.eq_of_token_eq hl nofun
    obtain rfl : l' = .rparen := Lexeme.eq_of_token_eq hl' nofun
    exact .group (ih hvs.symm)
  | negation n _ ih =>
    obtain ⟨us, vs, rfl, hus, hvs⟩ := List.map_eq_append_iff.mp hls.symm
    obtain rfl : us = List.replicate n .not := by
      rw [List.eq_replicate_iff, ← List.length_map (f := Lexeme.token), hus, List.length_replicate]
      refine ⟨rfl, fun l hl => ?_⟩
      have htoken : l.token = Lexeme.not.token :=
        List.eq_of_mem_replicate (hus ▸ List.mem_map_of_mem hl)
      exact Lexeme.eq_of_token_eq htoken nofun
    exact .negation n (ih hvs.symm)
  | conjunction hne _ ih =>
    have hand : ∀ l : Lexeme, l.token = Lexeme.and.token → l = .and := fun l hl =>
      Lexeme.eq_of_token_eq hl nofun
    obtain ⟨x, rest, rfl, rfl⟩ := exists_parts hand hne hls
    obtain ⟨hx, hrest⟩ := List.forall_mem_cons.mp (List.forall_mem_map.mp ih)
    rw [Lexeme.map_snd_tokens, List.map_cons, conjunction_cons]
    exact .conjunction (hx rfl) fun y hy => hrest y hy rfl
  | disjunction hne _ ih =>
    have hor : ∀ l : Lexeme, l.token = Lexeme.or.token → l = .or := fun l hl =>
      Lexeme.eq_of_token_eq hl nofun
    obtain ⟨x, rest, rfl, rfl⟩ := exists_parts hor hne hls
    obtain ⟨hx, hrest⟩ := List.forall_mem_cons.mp (List.forall_mem_map.mp ih)
    rw [Lexeme.map_snd_tokens, List.map_cons, disjunction_cons]
    exact .disjunction (hx rfl) fun y hy => hrest y hy rfl

/-- A text is a query iff it can be cut into lexemes that can be produced, none of them a phrase of
blanks only; its expression is the one of the production. -/
theorem parse_eq_ok_iff_produces {s : String} {e : Expr} :
    parse s = .ok e ↔ ∃ ls, Cuts s.toList ls [] ∧ Produces .disjunction ls e ∧
      ∀ l ∈ ls, ¬l.IsBlank := by
  rw [parse_eq_ok_iff]
  constructor
  · rintro ⟨ts, hspells, hread, hblank⟩
    obtain ⟨ls, hcuts, rfl⟩ := hspells.exists_cuts
    refine ⟨ls, hcuts, (Parser.read?_eq_some_iff.mp hread).produces rfl, fun l hl hisBlank => ?_⟩
    have hnot := hblank _ (List.mem_map_of_mem hl)
    rw [(hcuts.isBlankPhrase_iff l hl).mpr hisBlank] at hnot
    cases hnot
  · rintro ⟨ls, hcuts, hproduces, hblank⟩
    refine ⟨_, hcuts.spells, Parser.read?_eq_some_iff.mpr hproduces.derives, ?_⟩
    refine List.forall_mem_map.mpr fun l hl => Bool.eq_false_iff.mpr ?_
    exact mt (hcuts.isBlankPhrase_iff l hl).mp (hblank l hl)

end PlaceSearch
