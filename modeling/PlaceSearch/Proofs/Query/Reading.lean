import PlaceSearch.Proofs.Query.Characters

/-!
# Queries by the grammar on characters

The grammar on characters takes exactly the texts that can be cut into lexemes and produced from a
disjunction, and the expression that is built from its pairs is the one of the production, unless
a phrase is of blanks only.  So it takes the same texts as the parser and reads them in the same
way.

What the grammar takes can be produced, by induction on the length of the text, since a query in
parentheses is shorter than the one around it.  What can be produced is taken, by induction on the
production: a repetition takes an operand after every operator that follows, and no production goes
on behind it with one more.
-/

namespace PlaceSearch.Query

open Peg

variable {s cs cs' : List Char}

/-! ## Expressions that are built -/

/-- What is built for some lexemes: a value, unless one of them is a phrase of blanks only. -/
def verdict {α : Type} (ls : List Lexeme) (a : α) : Except String α :=
  if ∃ l ∈ ls, l.IsBlank then .error "empty phrase" else .ok a

theorem verdict_of_not_blank {α : Type} {ls : List Lexeme} (h : ∀ l ∈ ls, ¬l.IsBlank) (a : α) :
    verdict ls a = .ok a :=
  if_neg fun ⟨l, hl, hblank⟩ => h l hl hblank

theorem verdict_eq_ok_iff {α : Type} {ls : List Lexeme} {a b : α} :
    verdict ls a = .ok b ↔ a = b ∧ ∀ l ∈ ls, ¬l.IsBlank := by
  unfold verdict
  split <;> simp_all

theorem verdict_congr {α : Type} {ls ls' : List Lexeme}
    (h : (∃ l ∈ ls, l.IsBlank) ↔ ∃ l ∈ ls', l.IsBlank) (a : α) : verdict ls a = verdict ls' a :=
  if_congr h rfl rfl

theorem verdict_bind {α β : Type} (ls ls' : List Lexeme) (a : α) (f : α → β) :
    (verdict ls a >>= fun a => verdict ls' (f a)) = verdict (ls ++ ls') (f a) := by
  by_cases h : ∃ l ∈ ls, l.IsBlank
  · obtain ⟨l, hl, hblank⟩ := h
    rw [verdict, if_pos ⟨l, hl, hblank⟩, verdict, if_pos ⟨l, List.mem_append_left ls' hl, hblank⟩]
    rfl
  · simp only [not_exists, not_and] at h
    have hsame : (∃ l ∈ ls ++ ls', l.IsBlank) ↔ ∃ l ∈ ls', l.IsBlank := by
      refine ⟨fun ⟨l, hl, hblank⟩ => ⟨l, ?_, hblank⟩, fun ⟨l, hl, hblank⟩ =>
        ⟨l, List.mem_append_right ls hl, hblank⟩⟩
      exact (List.mem_append.mp hl).resolve_left fun hl => h l hl hblank
    rw [verdict_of_not_blank h, verdict_congr hsame]
    rfl

theorem verdict_map {α β : Type} (ls : List Lexeme) (a : α) (f : α → β) :
    (verdict ls a >>= fun a => (pure (f a) : Except String β)) = verdict ls (f a) := by
  have hnil : ∀ a, (pure (f a) : Except String β) = verdict [] (f a) := fun a =>
    (verdict_of_not_blank (by simp) _).symm
  rw [funext hnil, verdict_bind, List.append_nil]

/-- The pairs of operators. -/
def IsOperatorPair (p : Pair Rule) : Prop :=
  ruleOf p = .orOp ∨ ruleOf p = .andOp ∨ ruleOf p = .notOp

theorem buildOperands_cons {p : Pair Rule} {ps : List (Pair Rule)} {ls ls' : List Lexeme}
    {e : Expr} {es : List Expr} (hp : ¬IsOperatorPair p) (hbuild : build p = verdict ls e)
    (hps : buildOperands ps = verdict ls' es) :
    buildOperands (p :: ps) = verdict (ls ++ ls') (e :: es) := by
  have hnot : ¬(ruleOf p = .orOp ∨ ruleOf p = .andOp) := fun h =>
    hp (h.imp_right Or.inl)
  rw [buildOperands, if_neg hnot, hbuild, hps]
  simp only [verdict_map]
  exact verdict_bind ls ls' e (· :: es)

theorem buildOperand_not (text : List Char) (inner : List (Pair Rule)) (count : Nat)
    (found : Option Expr) (ps : List (Pair Rule)) :
    buildOperand count found (.mk .notOp text inner :: ps) =
      buildOperand (count + 1) found ps := by
  rw [buildOperand]
  exact if_pos rfl

/-! ## What the grammar takes can be produced -/

/-- A text is taken up to a rest of it by a nonterminal that produces its lexemes, and the pair
tells what they make. -/
def Told (n : Nonterminal) (cs : List Char) (p : Pair Rule) (cs' : List Char) : Prop :=
  ∃ ls e, Cuts cs ls cs' ∧ Produces n ls e ∧ build p = verdict ls e

/-- Whatever a rule takes from a text on is told by a single pair, which is not the one of an
operator. -/
def Sound (s : List Char) (r : Rule) (n : Nonterminal) (cs : List Char) : Prop :=
  ∀ ps cs', Yields grammar s .plain (.rule r) cs (some (ps, cs')) →
    ∃ p, ps = [p] ∧ ¬IsOperatorPair p ∧ (r = .disjunction → ruleOf p = .disjunction) ∧
      Told n cs p cs'

theorem told_phrase {w text : List Char} (h : Begins cs (.phrase w) cs') :
    Told .primary cs (.mk .phrase text [.mk .phraseText w []]) cs' := by
  refine ⟨[.phrase w], _, .next h (.stop _), .phrase w, ?_⟩
  rw [build, verdict]
  simp only [List.head?_cons, Option.map_some, Option.getD_some, textOf, String.isEmpty_iff,
    Text.trim_eq_empty_iff, String.toList_ofList, List.mem_singleton, exists_eq_left]
  rfl

theorem told_category {w : List Char} (h : Begins cs (.category w) cs') :
    Told .primary cs (.mk .category w []) cs' := by
  refine ⟨[.category w], _, .next h (.stop _), .category w, ?_⟩
  rw [build, verdict_of_not_blank (by simp [Lexeme.IsBlank])]

/-- A primary, if all shorter texts are told rightly. -/
theorem sound_primary
    (ih : ∀ cs₁ : List Char, cs₁.length < cs.length → Sound s .disjunction .disjunction cs₁) :
    Sound s .primary .primary cs := by
  intro ps cs' h
  cases h with
  | rule hcs hbody =>
    change Yields grammar s .plain (.choice (.rule .phrase) (.choice (.rule .category)
      (.seq (.char '(') (.seq (.rule .disjunction) (.char ')'))))) cs _ at hbody
    cases hbody with
    | choice_left hphrase =>
      obtain ⟨w, hbegins, text, rfl⟩ := of_yields_phrase hphrase
      exact ⟨_, rfl, by simp [IsOperatorPair, ruleOf], nofun, told_phrase hbegins⟩
    | choice_right _ hrest =>
      cases hrest with
      | choice_left hcategory =>
        obtain ⟨w, hbegins, rfl⟩ := of_yields_category hcategory
        exact ⟨_, rfl, by simp [IsOperatorPair, ruleOf], nofun, told_category hbegins⟩
      | choice_right _ hgroup =>
        obtain ⟨_, _, cs₁, rfl, hopen, hrest⟩ := of_yields_seq hgroup
        obtain ⟨_, _, cs₂, rfl, hdisjunction, hclose⟩ := of_yields_seq hrest
        obtain ⟨rfl, rfl⟩ := of_yields_char hopen
        obtain ⟨hend, rfl⟩ := of_yields_char hclose
        have hlt := Nat.lt_succ_of_le (length_dropWhites_le cs₁)
        obtain ⟨p, rfl, hp, -, ls, e, hcuts, hproduces, hbuild⟩ := ih _ hlt _ _ hdisjunction
        refine ⟨p, rfl, hp, nofun, .lparen :: (ls ++ [.rparen]), e, ?_, .group hproduces, ?_⟩
        · have hclose : Cuts (dropWhites cs₂) [.rparen] cs' :=
            hend ▸ .next (.symbol (by simp [Lexeme.symbols]) cs') (.stop cs')
          have hcuts' := hcuts.append ((cuts_dropWhites cs₂).append hclose)
          exact .next (.symbol (by simp [Lexeme.symbols]) _) ((cuts_dropWhites cs₁).append hcuts')
        · rw [hbuild]
          exact verdict_congr (by simp [Lexeme.IsBlank]) e

/-- Some negations are taken, and it is counted how many they are. -/
def Counts (cs : List Char) (ps : List (Pair Rule)) (cs' : List Char) : Prop :=
  ∃ n, Cuts cs (List.replicate n .not) cs' ∧ ∀ count found qs,
    buildOperand count found (ps ++ qs) = buildOperand (count + n) found qs

theorem counts_of_yields {ps : List (Pair Rule)}
    (h : Yields grammar s .plain (.star (.rule .notOp)) cs (some (ps, cs'))) :
    Counts cs ps cs' := by
  refine star_induction (motive := Counts) ?_ ?_ h
  · exact fun cs => ⟨0, .stop cs, fun _ _ _ => rfl⟩
  · rintro cs cs₁ cs₂ cs₃ ps rs hwhites - hnot ⟨n, hcuts, hcount⟩
    obtain ⟨hbegins, text, rfl⟩ := of_yields_operator isOperator_notOp hnot
    refine ⟨n + 1, hwhites.append (.next hbegins hcuts), fun count found qs => ?_⟩
    rw [List.cons_append, List.nil_append, List.cons_append, buildOperand_not, hcount,
      Nat.add_right_comm, Nat.add_assoc]

/-- A negation, if primaries are told rightly. -/
theorem sound_negation (hprimary : ∀ cs₁, cs₁ <:+ cs → Sound s .primary .primary cs₁) :
    Sound s .negation .negation cs := by
  intro ps cs' h
  cases h with
  | @rule _ _ text _ _ _ hcs hbody =>
    obtain ⟨ps₁, ps₂, cs₁, rfl, hnots, hyields⟩ := of_yields_seq hbody
    obtain ⟨n, hcuts, hcount⟩ := counts_of_yields hnots
    have hsuffix : dropWhites cs₁ <:+ cs := (List.dropWhile_suffix _).trans hnots.suffix
    obtain ⟨p, rfl, hp, -, ls, e, hcuts', hproduces, hbuild⟩ := hprimary _ hsuffix _ _ hyields
    refine ⟨.mk .negation text (ps₁ ++ [p]), rfl, by simp [IsOperatorPair, ruleOf], nofun,
      List.replicate n .not ++ ls, _, ?_, .negation n hproduces, ?_⟩
    · exact hcuts.append ((cuts_dropWhites cs₁).append hcuts')
    · have hnot : ¬ruleOf p = .notOp := fun h => hp (.inr (.inr h))
      have hsame : (∃ l ∈ List.replicate n Lexeme.not ++ ls, l.IsBlank) ↔
          ∃ l ∈ ls, l.IsBlank := by
        simp [or_and_right, exists_or, Lexeme.IsBlank]
      rw [build, hcount, buildOperand, if_neg hnot, hbuild, verdict_congr hsame, Nat.zero_add]
      unfold verdict
      split <;> rfl

/-- Some operands are taken, with an operator in front of each, and they are built one by one. -/
def Lists (l : Lexeme) (n : Nonterminal) (cs : List Char) (ps : List (Pair Rule))
    (cs' : List Char) : Prop :=
  ∃ rest : List (List Lexeme × Expr),
    Cuts cs (rest.flatMap fun x => l :: x.1) cs' ∧ (∀ x ∈ rest, Produces n x.1 x.2) ∧
      buildOperands ps = verdict (rest.flatMap fun x => l :: x.1) (rest.map (·.2))

theorem lists_of_yields {ro r : Rule} {word : String} {symbol : Char} {l : Lexeme}
    {n : Nonterminal} {ps : List (Pair Rule)} (hop : IsOperator ro word symbol l)
    (hro : ro = .orOp ∨ ro = .andOp) (hsound : ∀ cs₁, cs₁ <:+ cs → Sound s r n cs₁)
    (h : Yields grammar s .plain (.star (.seq (.rule ro) (.rule r))) cs (some (ps, cs'))) :
    Lists l n cs ps cs' := by
  have hmotive : cs <:+ cs → Lists l n cs ps cs' := by
    refine star_induction (motive := fun cs₁ ps cs' => cs₁ <:+ cs → Lists l n cs₁ ps cs') ?_ ?_ h
    · exact fun cs₁ _ => ⟨[], .stop cs₁, nofun, (verdict_of_not_blank (by simp) _).symm⟩
    · intro cs₁ cs₂ cs₃ cs₄ ps rs hwhites hsuffix hpart hrest hcs
      have hcs₃ : cs₃ <:+ cs := hpart.suffix.trans (hsuffix.trans hcs)
      obtain ⟨rest, hcuts', hproduces', hbuild'⟩ := hrest hcs₃
      obtain ⟨_, _, cs₅, rfl, hoperator, hoperand⟩ := of_yields_seq hpart
      obtain ⟨hbegins, text, rfl⟩ := of_yields_operator hop hoperator
      have hcs₅ : dropWhites cs₅ <:+ cs :=
        (List.dropWhile_suffix _).trans (hoperator.suffix.trans (hsuffix.trans hcs))
      obtain ⟨p, rfl, hp, -, ls, e, hcuts, hproduces, hbuild⟩ := hsound _ hcs₅ _ _ hoperand
      refine ⟨(ls, e) :: rest, ?_, List.forall_mem_cons.mpr ⟨hproduces, hproduces'⟩, ?_⟩
      · rw [List.flatMap_cons]
        exact hwhites.append (.next hbegins ((cuts_dropWhites cs₅).append (hcuts.append hcuts')))
      · have hskip : buildOperands (.mk ro text [] :: p :: rs) = buildOperands (p :: rs) := by
          rw [buildOperands]
          exact if_pos hro
        rw [List.cons_append, List.nil_append, List.cons_append, List.cons_append, List.nil_append,
          hskip, buildOperands_cons hp hbuild hbuild', List.flatMap_cons, List.map_cons]
        refine verdict_congr ?_ _
        simp [hop.not_isBlank]
  exact hmotive (List.suffix_refl cs)

/-- Some operands with an operator between each two. -/
theorem told_operands {ro r : Rule} {word : String} {symbol : Char} {l : Lexeme} {n : Nonterminal}
    {ps : List (Pair Rule)} (hop : IsOperator ro word symbol l) (hro : ro = .orOp ∨ ro = .andOp)
    (hsound : ∀ cs₁, cs₁ <:+ cs → Sound s r n cs₁)
    (h : Yields grammar s .plain (Rule.operands ro r) cs (some (ps, cs'))) :
    ∃ (ls : List Lexeme) (e : Expr) (rest : List (List Lexeme × Expr)),
      Cuts cs (ls ++ rest.flatMap fun x => l :: x.1) cs' ∧ Produces n ls e ∧
        (∀ x ∈ rest, Produces n x.1 x.2) ∧
          buildOperands ps =
            verdict (ls ++ rest.flatMap fun x => l :: x.1) (e :: rest.map (·.2)) := by
  obtain ⟨_, ps₂, cs₁, rfl, hfirst, hrest⟩ := of_yields_seq h
  obtain ⟨p, rfl, hp, -, ls, e, hcuts, hproduces, hbuild⟩ :=
    hsound cs (List.suffix_refl cs) _ _ hfirst
  have hcs₁ : dropWhites cs₁ <:+ cs := (List.dropWhile_suffix _).trans hfirst.suffix
  obtain ⟨rest, hcuts', hproduces', hbuild'⟩ :=
    lists_of_yields hop hro (fun cs₂ hcs₂ => hsound cs₂ (hcs₂.trans hcs₁)) hrest
  exact ⟨ls, e, rest, hcuts.append ((cuts_dropWhites cs₁).append hcuts'), hproduces, hproduces',
    buildOperands_cons hp hbuild hbuild'⟩

theorem sound_conjunction (hnegation : ∀ cs₁, cs₁ <:+ cs → Sound s .negation .negation cs₁) :
    Sound s .conjunction .conjunction cs := by
  intro ps cs' h
  cases h with
  | @rule _ _ text ps _ _ hcs hbody =>
    obtain ⟨ls, e, rest, hcuts, hproduces, hproduces', hbuild⟩ :=
      told_operands isOperator_andOp (.inr rfl) hnegation hbody
    refine ⟨.mk .conjunction text ps, rfl, by simp [IsOperatorPair, ruleOf], nofun, _, _, hcuts,
      .conjunction hproduces hproduces', ?_⟩
    rw [build, hbuild]
    unfold verdict
    split <;> cases rest <;> rfl

theorem sound_disjunction
    (hconjunction : ∀ cs₁, cs₁ <:+ cs → Sound s .conjunction .conjunction cs₁) :
    Sound s .disjunction .disjunction cs := by
  intro ps cs' h
  cases h with
  | @rule _ _ text ps _ _ hcs hbody =>
    obtain ⟨ls, e, rest, hcuts, hproduces, hproduces', hbuild⟩ :=
      told_operands isOperator_orOp (.inl rfl) hconjunction hbody
    refine ⟨.mk .disjunction text ps, rfl, by simp [IsOperatorPair, ruleOf], fun _ => rfl, _, _,
      hcuts, .disjunction hproduces hproduces', ?_⟩
    rw [build, hbuild]
    unfold verdict
    split <;> cases rest <;> rfl

theorem sound (s cs : List Char) : Sound s .disjunction .disjunction cs := by
  induction hn : cs.length using Nat.strong_induction_on generalizing cs with
  | _ n ih =>
    subst hn
    refine sound_disjunction fun cs₁ h₁ => sound_conjunction fun cs₂ h₂ =>
      sound_negation fun cs₃ h₃ => sound_primary fun cs₄ h₄ => ?_
    -- Only the primary takes a character before it comes back to a disjunction.
    have hle : cs₃.length ≤ cs.length := ((h₃.trans h₂).trans h₁).length_le
    exact ih _ (Nat.lt_of_lt_of_le h₄ hle) cs₄ rfl

theorem buildQuery_of_disjunction {p : Pair Rule} (hp : ruleOf p = .disjunction)
    (text : List Char) (ps : List (Pair Rule)) :
    buildQuery [.mk .expression text (p :: ps)] = build p := by
  simp [buildQuery, hp]

/-- A text that the grammar takes can be cut into lexemes and produced. -/
theorem exists_produces_of_matches {text : String} {ps : List (Pair Rule)} (h : Matches text ps) :
    ∃ ls e, Cuts text.toList ls [] ∧ Produces .disjunction ls e ∧ buildQuery ps = verdict ls e := by
  obtain ⟨rest, h⟩ := h
  cases h with
  | @rule _ _ taken ps _ _ hcs hbody =>
    obtain ⟨_, _, cs₁, rfl, hstart, hquery⟩ := of_yields_seq hbody
    obtain ⟨_, _, cs₂, rfl, hdisjunction, hend⟩ := of_yields_seq hquery
    obtain ⟨p, rfl, -, hp, ls, e, hcuts, hproduces, hbuild⟩ := sound _ _ _ _ hdisjunction
    obtain ⟨rfl, rfl⟩ := of_yields_start hstart
    refine ⟨ls, e, ?_, hproduces, ?_⟩
    · have hwhites := (cuts_dropWhites text.toList).append (hcuts.append (cuts_dropWhites cs₂))
      rwa [of_yields_endOfInput hend, List.nil_append, List.append_nil] at hwhites
    · exact (buildQuery_of_disjunction (hp rfl) _ _).trans hbuild

/-! ## What can be produced is taken -/

theorem cuts_of_cuts_dropWhites {ls : List Lexeme} (h : Cuts cs ls []) :
    Cuts (dropWhites cs) ls [] := by
  cases ls with
  | nil =>
    rw [dropWhites_of_cuts h]
    exact .stop []
  | cons l ls =>
    obtain ⟨cs₁, hbegins, hcuts⟩ := exists_begins_of_cuts h
    exact .next hbegins hcuts

/-- Nothing but the first lexeme of a text stands at its beginning. -/
theorem not_begins_of_cuts {l : Lexeme} {us : List Lexeme} (h : Cuts cs us [])
    (hus : ∀ l' ∈ us.head?, l' ≠ l) (cs' : List Char) : ¬Begins (dropWhites cs) l cs' := by
  intro hbegins
  cases us with
  | nil =>
    rw [dropWhites_of_cuts h] at hbegins
    rcases cases_of_begins hbegins with ⟨_, hcs, -⟩ | ⟨_, _, hcs, -⟩ | ⟨_, hcs, -⟩ <;> cases hcs
  | cons l' us =>
    obtain ⟨cs₁, hbegins', -⟩ := exists_begins_of_cuts h
    exact hus l' rfl (begins_unique hbegins' hbegins).1

/-- From a text on, an expression takes the lexemes up to `us`, which are the last ones. -/
def Takes (s : List Char) (a : Exp Rule) (cs : List Char) (us : List Lexeme) : Prop :=
  ∃ ps cs', Yields grammar s .plain a (dropWhites cs) (some (ps, cs')) ∧ Cuts cs' us []

/-- What a nonterminal is read by. -/
def rule : Nonterminal → Rule
  | .disjunction => .disjunction
  | .conjunction => .conjunction
  | .negation => .negation
  | .primary => .primary

/-- In front of these lexemes a nonterminal ends, since they begin with no operator that it would go
on with. -/
def Ends : Nonterminal → List Lexeme → Prop
  | .disjunction, us => ∀ l ∈ us.head?, l ≠ .and ∧ l ≠ .or
  | .conjunction, us => ∀ l ∈ us.head?, l ≠ .and
  | .negation, _ | .primary, _ => True

/-- Wherever some lexemes stand and a nonterminal can end behind them, it takes them. -/
def Complete (s : List Char) (n : Nonterminal) (ls : List Lexeme) : Prop :=
  ∀ cs us, Ends n us → Cuts cs (ls ++ us) [] → Takes s (.rule (rule n)) cs us

section Takes

variable {a b : Exp Rule} {us vs : List Lexeme} {r : Rule} {word : String} {symbol : Char}
  {l : Lexeme}

theorem Takes.seq (ha : Takes s a cs us) (hb : ∀ cs', Cuts cs' us [] → Takes s b cs' vs) :
    Takes s (.seq a b) cs vs := by
  obtain ⟨ps, cs₁, ha, hcuts⟩ := ha
  obtain ⟨qs, cs₂, hb, hcuts'⟩ := hb cs₁ hcuts
  exact ⟨ps ++ qs, cs₂, .seq ha (yields_skip cs₁) hb, hcuts'⟩

theorem Takes.rule (hr : r.kind.mode .plain = .plain) (h : Takes s r.body cs us) :
    Takes s (.rule r) cs us := by
  obtain ⟨ps, cs₁, hbody, hcuts⟩ := h
  obtain ⟨qs, hrule⟩ := exists_yields_rule hr hbody
  exact ⟨qs, cs₁, hrule, hcuts⟩

theorem takes_operator (hop : IsOperator r word symbol l) (h : Cuts cs (l :: us) []) :
    Takes s (.rule r) cs us := by
  obtain ⟨cs₁, hbegins, hcuts⟩ := exists_begins_of_cuts h
  obtain ⟨text, hyields⟩ := yields_operator hop hbegins
  exact ⟨_, cs₁, hyields, hcuts⟩

theorem of_begins_paren (hl : l = .lparen ∨ l = .rparen) (h : Begins cs l cs') :
    ∃ c, cs = c :: cs' ∧ (c, l) ∈ Lexeme.symbols := by
  rcases cases_of_begins h with hsymbol | ⟨c, w, -, hw, -⟩ | ⟨w, -, hw, -⟩
  · exact hsymbol
  · rcases hl with rfl | rfl <;> rcases Lexeme.ofWord_cases (c :: w) with h | h | h | h <;>
      rw [h] at hw <;> cases hw
  · rcases hl with rfl | rfl <;> cases hw

theorem takes_paren {c : Char} (hl : l = .lparen ∨ l = .rparen) (hc : (c, l) ∈ Lexeme.symbols)
    (h : Cuts cs (l :: us) []) : Takes s (.char c) cs us := by
  obtain ⟨cs₁, hbegins, hcuts⟩ := exists_begins_of_cuts h
  obtain ⟨d, hcs, hd⟩ := of_begins_paren hl hbegins
  obtain rfl : d = c := by
    rcases hl with rfl | rfl <;> simp_all [Lexeme.symbols]
  exact ⟨[], cs₁, hcs ▸ .char _ _ _, hcuts⟩

/-! ### Repetitions -/

section Star

variable {parts : List (List Lexeme)} {ok : List Lexeme → Prop}

/-- In front of parts, and of what follows the last one, any part can end. -/
theorem ok_flatten (hok : ∀ part ∈ parts, ∀ vs, ok (part ++ vs)) (hus : ok us) :
    ok (parts.flatten ++ us) := by
  cases parts with
  | nil => exact hus
  | cons part parts =>
    rw [List.flatten_cons, List.append_assoc]
    exact hok part List.mem_cons_self _

/-- A repetition that has begun takes one part after the other, up to where no part stands. -/
theorem takes_again (hok : ∀ part ∈ parts, ∀ vs, ok (part ++ vs)) (hus : ok us)
    (hparts : ∀ part ∈ parts, ∀ cs vs, ok vs → Cuts cs (part ++ vs) [] → Takes s a cs vs)
    (hstop : ∀ cs, Cuts cs us [] → Yields grammar s .plain a (dropWhites cs) none)
    (h : Cuts cs (parts.flatten ++ us) []) :
    ∃ ps cs', Yields grammar s .plain (.again a) cs (some (ps, cs')) ∧ Cuts cs' us [] := by
  induction parts generalizing cs with
  | nil => exact ⟨[], cs, .again_none (yields_skip cs) (hstop cs h), h⟩
  | cons part parts ih =>
    obtain ⟨hpart, hparts⟩ := List.forall_mem_cons.mp hparts
    have hok := (List.forall_mem_cons.mp hok).2
    rw [List.flatten_cons, List.append_assoc] at h
    obtain ⟨ps, cs₁, hyields, hcuts⟩ := hpart cs _ (ok_flatten hok hus) h
    obtain ⟨qs, cs₂, hyields', hcuts'⟩ := ih hok hparts hcuts
    exact ⟨ps ++ qs, cs₂, .again_some (yields_skip cs) hyields hyields', hcuts'⟩

theorem takes_star (hok : ∀ part ∈ parts, ∀ vs, ok (part ++ vs)) (hus : ok us)
    (hparts : ∀ part ∈ parts, ∀ cs vs, ok vs → Cuts cs (part ++ vs) [] → Takes s a cs vs)
    (hstop : ∀ cs, Cuts cs us [] → Yields grammar s .plain a (dropWhites cs) none)
    (h : Cuts cs (parts.flatten ++ us) []) : Takes s (.star a) cs us := by
  cases parts with
  | nil => exact ⟨[], _, .star_none (hstop cs h), cuts_of_cuts_dropWhites h⟩
  | cons part parts =>
    obtain ⟨hpart, hparts⟩ := List.forall_mem_cons.mp hparts
    have hok := (List.forall_mem_cons.mp hok).2
    rw [List.flatten_cons, List.append_assoc] at h
    obtain ⟨ps, cs₁, hyields, hcuts⟩ := hpart cs _ (ok_flatten hok hus) h
    obtain ⟨qs, cs₂, hyields', hcuts'⟩ := takes_again hok hus hparts hstop hcuts
    exact ⟨ps ++ qs, cs₂, .star_some hyields hyields', hcuts'⟩

end Star

/-- Some operands with an operator between each two, in front of something else. -/
theorem takes_operands {n : Nonterminal} {ls : List Lexeme} {rest : List (List Lexeme × Expr)}
    (hop : IsOperator r word symbol l) (hends : ∀ vs, Ends n (l :: vs)) (hus : Ends n us)
    (hne : ∀ l' ∈ us.head?, l' ≠ l) (hfirst : Complete s n ls)
    (hrest : ∀ x ∈ rest, Complete s n x.1)
    (h : Cuts cs ((ls ++ rest.flatMap fun x => l :: x.1) ++ us) []) :
    Takes s (Rule.operands r (rule n)) cs us := by
  rw [List.flatMap_def, List.append_assoc] at h
  have hok : ∀ part ∈ rest.map (l :: ·.1), ∀ vs, Ends n (part ++ vs) :=
    List.forall_mem_map.mpr fun x _ vs => hends _
  refine (hfirst cs _ (ok_flatten hok hus) h).seq fun cs' hcuts => ?_
  refine takes_star hok hus (List.forall_mem_map.mpr fun x hx cs vs hvs hcuts => ?_)
    (fun cs hcuts => .seq_fail_left (yields_operator_fail hop (not_begins_of_cuts hcuts hne))) hcuts
  exact (takes_operator hop hcuts).seq fun cs' hcuts' => hrest x hx cs' vs hvs hcuts'

/-- A primary begins with something else than a negation. -/
theorem head_ne_not_of_produces {ls : List Lexeme} {e : Expr} (h : Produces .primary ls e)
    (us : List Lexeme) : ∀ l ∈ (ls ++ us).head?, l ≠ .not := by
  cases h <;> simp

theorem takes_nots (n : Nat) (hus : ∀ l ∈ us.head?, l ≠ .not)
    (h : Cuts cs (List.replicate n .not ++ us) []) : Takes s (.star (.rule .notOp)) cs us := by
  have hflatten : (List.replicate n [Lexeme.not]).flatten = List.replicate n .not :=
    List.flatten_replicate_singleton
  rw [← hflatten] at h
  have hpart : ∀ part ∈ List.replicate n [Lexeme.not], ∀ cs vs, True →
      Cuts cs (part ++ vs) [] → Takes s (.rule .notOp) cs vs := by
    intro part hpart cs vs _ hcuts
    obtain rfl := List.eq_of_mem_replicate hpart
    exact takes_operator isOperator_notOp hcuts
  exact takes_star (fun _ _ _ => trivial) trivial hpart
    (fun cs hcuts => yields_operator_fail isOperator_notOp (not_begins_of_cuts hcuts hus)) h

theorem complete_category (w : List Char) : Complete s .primary [.category w] := by
  intro cs us _ h
  obtain ⟨cs₁, hbegins, hcuts⟩ := exists_begins_of_cuts h
  have hphrase := yields_phrase_fail (s := s) fun v _ hv =>
    Lexeme.noConfusion (begins_unique hbegins hv).1
  exact Takes.rule rfl
    ⟨_, cs₁, .choice_right hphrase (.choice_left (yields_category hbegins)), hcuts⟩

theorem complete_phrase (w : List Char) : Complete s .primary [.phrase w] := by
  intro cs us _ h
  obtain ⟨cs₁, hbegins, hcuts⟩ := exists_begins_of_cuts h
  obtain ⟨text, hyields⟩ := yields_phrase (s := s) hbegins
  exact Takes.rule rfl ⟨_, cs₁, .choice_left hyields, hcuts⟩

theorem complete_group {ls : List Lexeme} (hls : Complete s .disjunction ls) :
    Complete s .primary (.lparen :: (ls ++ [.rparen])) := by
  intro cs us _ h
  rw [List.cons_append, List.append_assoc] at h
  -- The choice comes to its last way, since nothing but the parenthesis stands at the beginning.
  have hphrase := yields_phrase_fail (s := s) fun w =>
    not_begins_of_cuts (l := .phrase w) h (by simp)
  have hcategory := yields_category_fail (s := s) fun w =>
    not_begins_of_cuts (l := .category w) h (by simp)
  have hgroup : Takes s (.seq (.char '(') (.seq (.rule .disjunction) (.char ')'))) cs us :=
    (takes_paren (.inl rfl) (by simp [Lexeme.symbols]) h).seq fun cs₁ hcuts =>
      (hls cs₁ (.rparen :: us) (by simp [Ends]) hcuts).seq fun _ hcuts' =>
        takes_paren (.inr rfl) (by simp [Lexeme.symbols]) hcuts'
  obtain ⟨ps, cs₁, hyields, hcuts⟩ := hgroup
  exact Takes.rule rfl
    ⟨ps, cs₁, .choice_right hphrase (.choice_right hcategory hyields), hcuts⟩

/-- What a nonterminal produces it takes, wherever it can end behind that. -/
theorem complete_of_produces {n : Nonterminal} {ls : List Lexeme} {e : Expr}
    (h : Produces n ls e) : Complete s n ls := by
  induction h with
  | category w => exact complete_category w
  | phrase w => exact complete_phrase w
  | group _ ih => exact complete_group ih
  | negation n h ih =>
    intro cs us _ hcuts
    rw [List.append_assoc] at hcuts
    exact Takes.rule rfl <|
      (takes_nots n (head_ne_not_of_produces h us) hcuts).seq fun cs₁ hcuts' =>
        ih cs₁ us trivial hcuts'
  | conjunction _ _ ih ihrest =>
    intro cs us hus hcuts
    exact Takes.rule rfl <|
      takes_operands (n := .negation) isOperator_andOp (fun _ => trivial) trivial hus ih ihrest
        hcuts
  | disjunction _ _ ih ihrest =>
    intro cs us hus hcuts
    exact Takes.rule rfl <|
      takes_operands (n := .conjunction) isOperator_orOp (fun _ => by simp [Ends])
        (fun l hl => (hus l hl).1) (fun l hl => (hus l hl).2) ih ihrest hcuts

end Takes

/-- A text that can be cut into lexemes and produced is taken by the grammar. -/
theorem exists_matches_of_produces {text : String} {ls : List Lexeme} {e : Expr}
    (hcuts : Cuts text.toList ls []) (h : Produces .disjunction ls e) :
    ∃ ps, Matches text ps := by
  rw [← List.append_nil ls] at hcuts
  obtain ⟨ps, cs₁, hyields, hrest⟩ :=
    complete_of_produces (s := text.toList) h _ [] (by simp [Ends]) hcuts
  have hend : Yields grammar text.toList .plain (.rule .endOfInput) (dropWhites cs₁)
      (some ([.mk .endOfInput [] []], [])) := by
    rw [dropWhites_of_cuts hrest]
    exact .rule (List.nil_append []).symm .finish
  have hbody : Yields grammar text.toList .plain (Rule.body .expression) text.toList
      (some ([] ++ (ps ++ [.mk .endOfInput [] []]), [])) :=
    .seq (.start rfl) (yields_skip _) (.seq hyields (yields_skip cs₁) hend)
  exact ⟨_, [], .rule (List.append_nil _).symm hbody⟩

end PlaceSearch.Query
