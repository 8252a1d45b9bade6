import Mathlib.Data.String.Basic
import PlaceSearch.Proofs.Query.Split

/-!
# The terms of a query

The terms of an expression are those of its parts, and the terms of what some words read are
the terms among the words: the parser neither loses nor invents one.  A query over terms of one
kind is its own half for this kind, but for spelling.
-/

namespace PlaceSearch

theorem Term.lt_iff {a b : Term} :
    a < b ↔ a.text < b.text ∨ (a.text = b.text ∧ a.kind = .category ∧ b.kind = .phrase) :=
  Iff.rfl

instance : IsStrictTotalOrder Term (· < ·) where
  trichotomous := by
    rintro ⟨ka, a⟩ ⟨kb, b⟩ h h'
    rw [Term.lt_iff, not_or] at h h'
    obtain rfl : a = b := le_antisymm (not_lt.mp h'.1) (not_lt.mp h.1)
    cases ka <;> cases kb <;> simp_all
  irrefl := by
    rintro ⟨k, a⟩ (h | ⟨-, h, h'⟩)
    · exact lt_irrefl a h
    · cases h.symm.trans h'
  trans := by
    rintro ⟨ka, a⟩ ⟨kb, b⟩ ⟨kc, c⟩ (h | ⟨h, -, hb⟩) (h' | ⟨h', hb', -⟩)
    · exact .inl (lt_trans h h')
    · exact .inl (h.trans_eq h')
    · exact .inl (h.trans_lt h')
    · cases hb.symm.trans hb'

namespace Expr

mutual

theorem mem_collect {u : Term} : ∀ (seen : List Term) (e : Expr),
    u ∈ collect seen e ↔ u ∈ seen ∨ u ∈ collect [] e
  | seen, .atom t => by
    rw [collect, collect]
    by_cases h : t ∈ seen <;> simp [h]
    rintro rfl
    exact h
  | seen, .not e => mem_collect seen e
  | seen, .and es => mem_collectAll seen es
  | seen, .or es => mem_collectAll seen es

theorem mem_collectAll {u : Term} : ∀ (seen : List Term) (es : List Expr),
    u ∈ collectAll seen es ↔ u ∈ seen ∨ u ∈ collectAll [] es
  | seen, [] => by simp [collectAll]
  | seen, e :: es => by
    rw [collectAll, mem_collectAll, mem_collect seen e, collectAll,
      mem_collectAll (collect [] e) es, or_assoc]

end

theorem mem_collectAll_nil {u : Term} {es : List Expr} :
    u ∈ collectAll [] es ↔ ∃ e ∈ es, u ∈ e.terms := by
  induction es with
  | nil => simp [collectAll]
  | cons e es ih =>
    rw [collectAll, mem_collectAll, ih]
    simp [terms]

theorem mem_terms_atom {u t : Term} : u ∈ (atom t).terms ↔ u = t := by
  simp [terms, collect]

theorem mem_terms_and {u : Term} {es : List Expr} :
    u ∈ (and es).terms ↔ ∃ e ∈ es, u ∈ e.terms :=
  mem_collectAll_nil

theorem mem_terms_or {u : Term} {es : List Expr} :
    u ∈ (or es).terms ↔ ∃ e ∈ es, u ∈ e.terms :=
  mem_collectAll_nil

theorem mem_terms_conjunction {u : Term} {es : List Expr} :
    u ∈ (conjunction es).terms ↔ ∃ e ∈ es, u ∈ e.terms := by
  unfold conjunction
  split
  · simp
  · exact mem_terms_and

theorem mem_terms_disjunction {u : Term} {es : List Expr} :
    u ∈ (disjunction es).terms ↔ ∃ e ∈ es, u ∈ e.terms := by
  unfold disjunction
  split
  · simp
  · exact mem_terms_or

theorem mem_terms_apply {u : Term} {odd : Bool} {e : Expr} :
    u ∈ (Need.apply odd e).terms ↔ u ∈ e.terms := by
  cases odd <;> rfl

theorem mem_terms_conjunction? {u : Term} {es : List Expr} :
    (∃ e ∈ conjunction? es, u ∈ e.terms) ↔ ∃ e ∈ es, u ∈ e.terms := by
  unfold conjunction?
  split
  · next h => simp [h]
  · simp [mem_terms_conjunction]

theorem mem_terms_disjunction? {u : Term} {es : List Expr} :
    (∃ e ∈ disjunction? es, u ∈ e.terms) ↔ ∃ e ∈ es, u ∈ e.terms := by
  unfold disjunction?
  split
  · next h => simp [h]
  · simp [mem_terms_disjunction]

mutual

/-- What is left of an expression for a kind has its terms of this kind. -/
theorem mem_terms_project {kind : TermKind} {u : Term} : ∀ e : Expr,
    (∃ e' ∈ e.project kind, u ∈ e'.terms) ↔ u.kind = kind ∧ u ∈ e.terms
  | .atom t => by
    rw [project, mem_terms_atom]
    split <;> simp [mem_terms_atom] <;> grind
  | .not e => by
    have hnot : ∀ e : Expr, e.not.terms = e.terms := fun _ => rfl
    rw [project, hnot, ← mem_terms_project e]
    cases project kind e with
    | none => simp
    | some e' => simp [hnot]
  | .and es => by
    rw [project, mem_terms_conjunction?, mem_terms_and, mem_terms_projectAll es]
  | .or es => by
    rw [project, mem_terms_disjunction?, mem_terms_or, mem_terms_projectAll es]

theorem mem_terms_projectAll {kind : TermKind} {u : Term} : ∀ es : List Expr,
    (∃ e' ∈ projectAll kind es, u ∈ e'.terms) ↔ u.kind = kind ∧ ∃ e ∈ es, u ∈ e.terms
  | [] => by simp [projectAll]
  | e :: es => by
    have hhead : (∃ e' ∈ e.project kind, u ∈ e'.terms) ↔ u.kind = kind ∧ u ∈ e.terms :=
      mem_terms_project e
    have htail : (∃ e' ∈ projectAll kind es, u ∈ e'.terms) ↔
        u.kind = kind ∧ ∃ e ∈ es, u ∈ e.terms := mem_terms_projectAll es
    simp only [projectAll, List.mem_append, List.mem_cons, or_and_right, exists_or,
      exists_eq_left, and_or_left, Option.mem_toList, ← Option.mem_def]
    exact or_congr hhead htail

end

end Expr

/-! ## The terms that a parser has read -/

/-- Whether a term occurs in a level. -/
def Level.Mentions (u : Term) (l : Level) : Prop :=
  (∃ e ∈ l.alternatives, u ∈ e.terms) ∨ ∃ e ∈ l.operands, u ∈ e.terms

namespace Level

theorem mentions_push {u : Term} {l : Level} {e : Expr} :
    (l.push e).Mentions u ↔ u ∈ e.terms ∨ l.Mentions u := by
  simp [Mentions, push, or_left_comm]

theorem mentions_turn {u : Term} {l : Level} : l.turn.Mentions u ↔ l.Mentions u := by
  simp [Mentions, turn, Expr.mem_terms_conjunction, or_comm]

theorem mem_terms_close {u : Term} {l : Level} : u ∈ l.close.terms ↔ l.Mentions u := by
  rw [← mentions_turn, close, Expr.mem_terms_disjunction]
  simp only [Mentions, turn, List.mem_reverse, List.not_mem_nil, false_and, exists_false, or_false]

end Level

namespace Parser

/-- Whether a term occurs in what a parser has read. -/
def Mentions (u : Term) (p : Parser) : Prop :=
  p.level.Mentions u ∨ ∃ x ∈ p.around, x.1.Mentions u

theorem mentions_take {u : Term} {p : Parser} {e : Expr} :
    (p.take e).Mentions u ↔ u ∈ e.terms ∨ p.Mentions u := by
  rw [Mentions, take, Level.mentions_push, or_assoc]
  rfl

/-- One more word adds its own term and no other. -/
theorem mentions_of_step {u : Term} {p q : Parser} {t : Token} (h : p.step t = some q) :
    q.Mentions u ↔ p.Mentions u ∨ t = .term u := by
  obtain ⟨around, level, need⟩ := p
  cases t with
  | and =>
    cases need <;> simp only [step, reduceCtorEq, Option.some.injEq] at h
    simp [← h, Mentions]
  | or =>
    cases need <;> simp only [step, reduceCtorEq, Option.some.injEq] at h
    simp [← h, Mentions, Level.mentions_turn]
  | not =>
    cases need <;> simp only [step, reduceCtorEq, Option.some.injEq] at h
    all_goals simp [← h, Mentions]
  | lparen =>
    cases need <;> simp only [step, reduceCtorEq, Option.some.injEq] at h
    all_goals simp [← h, Mentions, Level.Mentions]
  | rparen =>
    cases need <;> cases around <;> simp only [step, reduceCtorEq, Option.some.injEq] at h
    rw [← h, mentions_take, Expr.mem_terms_apply, Level.mem_terms_close]
    simp [Mentions]
  | term t =>
    have htake : q = take ⟨around, level, need⟩ (Need.apply need.odd (.atom t)) := by
      cases need <;> simp only [step, reduceCtorEq, Option.some.injEq] at h
      all_goals exact h.symm
    rw [htake, mentions_take, Expr.mem_terms_apply, Expr.mem_terms_atom, Token.term.injEq,
      or_comm, eq_comm]

theorem mentions_of_steps {u : Term} {p q : Parser} {ts : List Token} (h : p.steps ts = some q) :
    q.Mentions u ↔ p.Mentions u ∨ .term u ∈ ts := by
  induction ts generalizing p with
  | nil =>
    obtain rfl := Option.some.inj h
    simp
  | cons t ts ih =>
    rw [steps_cons] at h
    obtain ⟨p', hstep, hsteps⟩ := Option.bind_eq_some_iff.mp h
    rw [ih hsteps, mentions_of_step hstep, or_assoc, List.mem_cons, eq_comm]

/-- The terms of what some words read are the terms among the words. -/
theorem mem_terms_of_read? {u : Term} {ts : List Token} {e : Expr} (h : read? ts = some e) :
    u ∈ e.terms ↔ .term u ∈ ts := by
  obtain ⟨p, hsteps, hfinish⟩ := Option.bind_eq_some_iff.mp h
  have hmentions := mentions_of_steps (u := u) hsteps
  obtain ⟨around, level, need⟩ := p
  cases need <;> cases around <;> simp only [finish?, reduceCtorEq, Option.some.injEq] at hfinish
  rw [← hfinish, Level.mem_terms_close]
  simpa [Mentions, Level.Mentions] using hmentions

end Parser

/-- The text of a category that a text spells is a run. -/
theorem Spells.text_of_category {cs : List Char} {ts : List Token} (h : Spells cs ts)
    {u : Term} (hu : .term u ∈ ts) (hkind : u.kind = .category) :
    u.text ≠ "" ∧ ∀ c ∈ u.text.toList, Token.isRunChar c = true := by
  induction h with
  | nil => cases hu
  | gap _ _ ih => exact ih hu
  | symbol hc _ ih =>
    rcases List.mem_cons.mp hu with rfl | hu
    · unfold Token.ofSymbol? at hc
      split at hc <;> simp at hc
    · exact ih hu
  | @run w _ _ hne hw _ _ ih =>
    rcases List.mem_cons.mp hu with hrun | hu
    · rcases Token.ofRun_cases w with hread | hread | hread | hread
      case inr.inr.inr =>
        rw [hread] at hrun
        obtain rfl := Token.term.inj hrun
        rw [Term.category, String.toList_ofList]
        refine ⟨fun hempty => ?_, Token.isRunChar_of_mem_lowerFrom hw⟩
        exact Token.lowerFrom_ne_nil hne (by simpa using hempty)
      all_goals
        rw [hread] at hrun
        cases hrun
    · exact ih hu
  | phrase _ _ _ ih =>
    rcases List.mem_cons.mp hu with hphrase | hu
    · obtain rfl := Token.term.inj hphrase
      cases hkind
    · exact ih hu

/-! ## Queries over terms of one kind -/

/-- What some words read is all left for a kind that all its terms have. -/
theorem Parser.project_of_read? {kind : TermKind} {ts : List Token} {e : Expr}
    (h : read? ts = some e) (hkind : ∀ t ∈ e.terms, t.kind = kind) :
    e.project kind = some e := by
  have hkeep : ts.map (Piece.keep kind) = ts.map .word := by
    refine List.map_congr_left fun t ht => ?_
    cases t with
    | term u => exact if_pos (hkind u ((mem_terms_of_read? h).mpr ht))
    | _ => rfl
  have hread := readPieces?_map_keep kind h
  rw [hkeep, readPieces?_map_word, h] at hread
  exact (Option.some.inj hread).symm

/-- The half over categories of a query over categories reads what the query reads. -/
theorem splitQuery_of_categories {s : String} {e : Expr} (h : parse s = .ok e)
    (hkind : ∀ t ∈ e.terms, t.kind = .category) :
    ∃ categories phrases, splitQuery s = .ok (categories, phrases) ∧ categories ≠ "" ∧
      parse categories = .ok e := by
  obtain ⟨ts, hspells, hread, hblank⟩ := parse_eq_ok_iff.mp h
  have hproject := Parser.project_of_read? hread hkind
  obtain ⟨hempty, hparse⟩ := Piece.half_spec hspells hread hblank .category
  refine ⟨_, _, splitQuery_eq_halves h hspells, fun hhalf => ?_, hparse e hproject⟩
  rw [hempty.mp hhalf] at hproject
  cases hproject

/-- No term of a query is empty. -/
theorem text_ne_empty_of_mem_terms {s : String} {e : Expr} (h : parse s = .ok e) {t : Term}
    (ht : t ∈ e.terms) : t.text ≠ "" := by
  obtain ⟨ts, -, hread, hblank⟩ := parse_eq_ok_iff.mp h
  have hne := hblank _ ((Parser.mem_terms_of_read? hread).mp ht)
  simpa [Token.isBlankPhrase] using hne

/-- The text of a category of a query is a run. -/
theorem text_of_mem_terms {s : String} {e : Expr} (h : parse s = .ok e) {t : Term}
    (ht : t ∈ e.terms) (hkind : t.kind = .category) :
    t.text ≠ "" ∧ ∀ c ∈ t.text.toList, Token.isRunChar c = true := by
  obtain ⟨ts, hspells, hread, -⟩ := parse_eq_ok_iff.mp h
  exact hspells.text_of_category ((Parser.mem_terms_of_read? hread).mp ht) hkind

end PlaceSearch
