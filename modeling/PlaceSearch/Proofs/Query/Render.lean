import PlaceSearch.NormalForm.Compile
import PlaceSearch.Proofs.Query.Grammar

/-!
# The text of an expression

The text of an expression has every conjunction and disjunction in parentheses and every negation
written out.  Read again, it gives the expression back but for one thing: of the negations in front
of an operand only the parity counts, so two negations right inside one another are gone.  An
expression has such negations where parentheses kept them apart, as in `NOT (NOT bar)`.  The
clauses do not depend on them.

Not every expression can be read.  One that a text reads has at least two operands in every
conjunction and disjunction, and its terms have texts that read them again.
-/

namespace PlaceSearch

namespace Expr

/-! ## Double negations -/

mutual

/-- The expression without two negations right inside one another. -/
def dropDoubleNots : Expr → Expr
  | .atom t => .atom t
  | .not (.not e) => dropDoubleNots e
  | .not e => .not (dropDoubleNots e)
  | .and es => .and (dropDoubleNotsAll es)
  | .or es => .or (dropDoubleNotsAll es)

/-- The operands without two negations right inside one another. -/
def dropDoubleNotsAll : List Expr → List Expr
  | [] => []
  | e :: es => dropDoubleNots e :: dropDoubleNotsAll es

end

theorem dropDoubleNotsAll_eq_map (es : List Expr) :
    dropDoubleNotsAll es = es.map dropDoubleNots := by
  induction es with
  | nil => rfl
  | cons e es ih => rw [dropDoubleNotsAll, ih, List.map_cons]

-- Here and below the operand of a negation is told apart: `dropDoubleNots` looks two levels deep.
mutual

theorem collect_dropDoubleNots (seen : List Term) :
    ∀ e : Expr, collect seen e.dropDoubleNots = collect seen e
  | .atom _ => rfl
  | .not (.atom _) => rfl
  | .not (.not e) => collect_dropDoubleNots seen e
  | .not (.and es) => collectAll_dropDoubleNotsAll seen es
  | .not (.or es) => collectAll_dropDoubleNotsAll seen es
  | .and es => collectAll_dropDoubleNotsAll seen es
  | .or es => collectAll_dropDoubleNotsAll seen es

theorem collectAll_dropDoubleNotsAll (seen : List Term) :
    ∀ es : List Expr, collectAll seen (dropDoubleNotsAll es) = collectAll seen es
  | [] => rfl
  | e :: es => by
    rw [dropDoubleNotsAll, collectAll, collect_dropDoubleNots, collectAll_dropDoubleNotsAll,
      collectAll]

end

/-- The terms are the same, in the same order. -/
theorem terms_dropDoubleNots (e : Expr) : e.dropDoubleNots.terms = e.terms :=
  collect_dropDoubleNots [] e

end Expr

namespace Dnf

variable (table : SymbolTable) (cap : Nat)

mutual

theorem distribute_dropDoubleNots : ∀ (e : Expr) (negated : Bool),
    distribute table cap e.dropDoubleNots negated = distribute table cap e negated
  | .atom _, _ => rfl
  | .not (.atom _), _ => rfl
  | .not (.not e), negated => by
    rw [Expr.dropDoubleNots, distribute_dropDoubleNots, distribute, distribute, Bool.not_not]
  | .not (.and es), negated => by
    rw [distribute, ← distribute_dropDoubleNots (.and es)]
    rfl
  | .not (.or es), negated => by
    rw [distribute, ← distribute_dropDoubleNots (.or es)]
    rfl
  | .and es, negated => by
    rw [Expr.dropDoubleNots, distribute, distribute, product_dropDoubleNotsAll,
      sum_dropDoubleNotsAll]
  | .or es, negated => by
    rw [Expr.dropDoubleNots, distribute, distribute, product_dropDoubleNotsAll,
      sum_dropDoubleNotsAll]

theorem product_dropDoubleNotsAll : ∀ (es : List Expr) (negated : Bool) (acc : List Conjunction),
    product table cap (Expr.dropDoubleNotsAll es) negated acc = product table cap es negated acc
  | [], _, _ => rfl
  | e :: es, negated, acc => by
    simp only [Expr.dropDoubleNotsAll, product, distribute_dropDoubleNots,
      product_dropDoubleNotsAll]

theorem sum_dropDoubleNotsAll : ∀ (es : List Expr) (negated : Bool) (acc : List Conjunction),
    sum table cap (Expr.dropDoubleNotsAll es) negated acc = sum table cap es negated acc
  | [], _, _ => rfl
  | e :: es, negated, acc => by
    simp only [Expr.dropDoubleNotsAll, sum, distribute_dropDoubleNots, sum_dropDoubleNotsAll]

end

end Dnf

/-- Double negations do not change the clauses of an expression. -/
theorem compileExpr_dropDoubleNots (limits : Limits) (e : Expr) :
    compileExpr limits e.dropDoubleNots = compileExpr limits e := by
  have htable : SymbolTable.ofExpr e.dropDoubleNots limits.maxTerms =
      SymbolTable.ofExpr e limits.maxTerms := by
    rw [SymbolTable.ofExpr, SymbolTable.ofExpr, Expr.terms_dropDoubleNots]
  simp only [compileExpr, Dnf.ofExpr, htable, Dnf.distribute_dropDoubleNots]

/-! ## Expressions that a text can read -/

namespace Expr

/-- Every conjunction and every disjunction has at least two operands. -/
inductive Plural : Expr → Prop where
  | atom (t : Term) : Plural (.atom t)
  | not {e : Expr} (h : Plural e) : Plural (.not e)
  | and {es : List Expr} (hlen : 1 < es.length) (h : ∀ e ∈ es, Plural e) : Plural (.and es)
  | or {es : List Expr} (hlen : 1 < es.length) (h : ∀ e ∈ es, Plural e) : Plural (.or es)

theorem plural_conjunction {es : List Expr} (hne : es ≠ []) (h : ∀ e ∈ es, e.Plural) :
    (conjunction es).Plural := by
  match es, hne with
  | [e], _ => exact h e List.mem_cons_self
  | _ :: _ :: _, _ => exact .and (Nat.one_lt_succ_succ _) h

theorem plural_disjunction {es : List Expr} (hne : es ≠ []) (h : ∀ e ∈ es, e.Plural) :
    (disjunction es).Plural := by
  match es, hne with
  | [e], _ => exact h e List.mem_cons_self
  | _ :: _ :: _, _ => exact .or (Nat.one_lt_succ_succ _) h

theorem conjunction_of_one_lt {es : List Expr} (h : 1 < es.length) : conjunction es = .and es := by
  unfold conjunction
  split
  · exact absurd h (by simp)
  · rfl

theorem disjunction_of_one_lt {es : List Expr} (h : 1 < es.length) : disjunction es = .or es := by
  unfold disjunction
  split
  · exact absurd h (by simp)
  · rfl

end Expr

/-- What a derivation reads has at least two operands in every conjunction and disjunction. -/
theorem Derives.plural {n : Nonterminal} {ts : List Token} {e : Expr} (h : Derives n ts e) :
    e.Plural := by
  induction h with
  | term t => exact .atom t
  | group _ ih => exact ih
  | negation n _ ih =>
    split
    · exact .not ih
    · exact ih
  | conjunction hne _ ih =>
    exact Expr.plural_conjunction (by simpa using hne) (List.forall_mem_map.mpr ih)
  | disjunction hne _ ih =>
    exact Expr.plural_disjunction (by simpa using hne) (List.forall_mem_map.mpr ih)

/-! ## The words of an expression -/

namespace Expr

mutual

/-- The words of the text of an expression. -/
def words : Expr → List Token
  | .atom t => [.term t]
  | .not e => .not :: words e
  | .and es => .lparen :: ([Token.and].intercalate (wordsAll es) ++ [.rparen])
  | .or es => .lparen :: ([Token.or].intercalate (wordsAll es) ++ [.rparen])

/-- The words of the texts of the operands. -/
def wordsAll : List Expr → List (List Token)
  | [] => []
  | e :: es => words e :: wordsAll es

end

theorem wordsAll_eq_map (es : List Expr) : wordsAll es = es.map words := by
  induction es with
  | nil => rfl
  | cons e es ih => rw [wordsAll, ih, List.map_cons]

theorem renderAll_eq_map (es : List Expr) : renderAll es = es.map render := by
  induction es with
  | nil => rfl
  | cons e es ih => rw [renderAll, ih, List.map_cons]

end Expr

/-- The characters spell the words in front of any text that does not continue a run. -/
def SpellsBefore (cs : List Char) (ts : List Token) : Prop :=
  ∀ (ds : List Char) (us : List Token), (∀ d ∈ ds.head?, Token.isRunChar d = false) →
    Spells ds us → Spells (cs ++ ds) (ts ++ us)

namespace SpellsBefore

variable {cs ds : List Char} {ts us : List Token}

theorem spells (h : SpellsBefore cs ts) : Spells cs ts := by
  have hspells := h [] [] (by simp) .nil
  rwa [List.append_nil, List.append_nil] at hspells

theorem of_printable {t : Token} (h : t.Printable) : SpellsBefore t.render.toList [t] :=
  fun _ _ hstop hds => h (.inr hstop) hds

/-- Words with a blank between them. -/
theorem blank (h : SpellsBefore cs ts) (h' : SpellsBefore ds us) :
    SpellsBefore (cs ++ ' ' :: ds) (ts ++ us) := by
  intro es vs hstop hes
  have hgap : Spells (' ' :: (ds ++ es)) (us ++ vs) := .gap (by decide) (h' es vs hstop hes)
  have hspells := h _ _ (by simp; decide) hgap
  simpa using hspells

/-- Words in parentheses. -/
theorem group (h : SpellsBefore cs ts) :
    SpellsBefore ('(' :: (cs ++ [')'])) (.lparen :: (ts ++ [.rparen])) := by
  intro es vs hstop hes
  have hclose : Spells (')' :: es) (.rparen :: vs) := .symbol rfl hes
  have hspells : Spells ('(' :: (cs ++ ')' :: es)) (.lparen :: (ts ++ .rparen :: vs)) :=
    .symbol rfl (h _ _ (by simp; decide) hclose)
  simpa using hspells

/-- Operands with an operator between them. -/
theorem intercalate {op : Token} (hop : op.Printable) {es : List Expr} (hne : es ≠ [])
    (h : ∀ e ∈ es, SpellsBefore e.render.toList e.words) :
    SpellsBefore ((' ' :: (op.render.toList ++ [' '])).intercalate (es.map (·.render.toList)))
      ([op].intercalate (es.map (·.words))) := by
  induction es with
  | nil => exact absurd rfl hne
  | cons e es ih =>
    obtain ⟨he, hes⟩ := List.forall_mem_cons.mp h
    by_cases hnil : es = []
    · subst hnil
      simpa using he
    · have hrest := he.blank ((of_printable hop).blank (ih hnil hes))
      rw [List.map_cons, List.map_cons, List.intercalate_cons_of_ne_nil (by simpa using hnil),
        List.intercalate_cons_of_ne_nil (by simpa using hnil)]
      simpa using hrest

/-- The text of some operands: an operator between them, and parentheses around. -/
theorem operands {op : Token} (hop : op.Printable) {sep : String}
    (hsep : sep.toList = ' ' :: (op.render.toList ++ [' '])) {es : List Expr} (hne : es ≠ [])
    (h : ∀ e ∈ es, SpellsBefore e.render.toList e.words) :
    SpellsBefore ("(" ++ sep.intercalate (Expr.renderAll es) ++ ")").toList
      (.lparen :: ([op].intercalate (Expr.wordsAll es) ++ [.rparen])) := by
  have htext : ("(" ++ sep.intercalate (Expr.renderAll es) ++ ")").toList =
      '(' :: (sep.toList.intercalate (es.map (·.render.toList)) ++ [')']) := by
    simp [Expr.renderAll_eq_map, String.toList_intercalate, Function.comp_def]
  rw [htext, hsep, Expr.wordsAll_eq_map]
  exact (intercalate hop hne h).group

end SpellsBefore

/-- The text of an expression spells its words, if the words of its terms have texts of their
own. -/
theorem Expr.Plural.spells_render {e : Expr} (h : e.Plural)
    (hterms : ∀ t ∈ e.terms, (Token.term t).Printable) :
    SpellsBefore e.render.toList e.words := by
  induction h with
  | atom t => exact .of_printable (hterms t (mem_terms_atom.mpr rfl))
  | @not e _ ih =>
    have htext : (Expr.not e).render.toList = Token.not.render.toList ++ ' ' :: e.render.toList := by
      rw [render, String.toList_append]
      rfl
    rw [htext]
    exact (SpellsBefore.of_printable Token.printable_not).blank (ih hterms)
  | and hlen _ ih =>
    exact .operands Token.printable_and rfl (List.length_pos_iff.mp hlen.pos) fun e he =>
      ih e he fun t ht => hterms t (mem_terms_and.mpr ⟨e, he, ht⟩)
  | or hlen _ ih =>
    exact .operands Token.printable_or rfl (List.length_pos_iff.mp hlen.pos) fun e he =>
      ih e he fun t ht => hterms t (mem_terms_or.mpr ⟨e, he, ht⟩)

/-! ## What the words of an expression read -/

namespace Derives

variable {ts : List Token} {e : Expr}

theorem negation_of_primary (h : Derives .primary ts e) : Derives .negation ts e :=
  .negation 0 h

theorem not_of_primary (h : Derives .primary ts e) : Derives .negation (.not :: ts) (.not e) :=
  .negation 1 h

/-- Two more negations say nothing. -/
theorem not_not (h : Derives .negation ts e) : Derives .negation (.not :: .not :: ts) e := by
  cases h with
  | @negation ts e n h =>
    have hderives := Derives.negation (n + 2) h
    rwa [Nat.add_mod_right] at hderives

theorem conjunction_of_negation (h : Derives .negation ts e) : Derives .conjunction ts e :=
  @conjunction_concat [] ts e nofun h

theorem disjunction_of_conjunction (h : Derives .conjunction ts e) : Derives .disjunction ts e :=
  @disjunction_concat [] ts e nofun h

/-- Operands with `AND` between them, in parentheses. -/
theorem group_and {es : List Expr} (hlen : 1 < es.length)
    (h : ∀ e ∈ es, Derives .negation e.words e.dropDoubleNots) :
    Derives .primary (Expr.and es).words (Expr.and es).dropDoubleNots := by
  have hparts : ∀ x ∈ es.map fun e => (e.words, e.dropDoubleNots), Derives .negation x.1 x.2 :=
    List.forall_mem_map.mpr h
  have hderives := Derives.conjunction (by simpa using List.length_pos_iff.mp hlen.pos) hparts
  rw [List.map_map, List.map_map, Expr.conjunction_of_one_lt (by simpa using hlen)] at hderives
  rw [Expr.words, Expr.dropDoubleNots, Expr.wordsAll_eq_map, Expr.dropDoubleNotsAll_eq_map]
  exact .group hderives.disjunction_of_conjunction

/-- Operands with `OR` between them, in parentheses. -/
theorem group_or {es : List Expr} (hlen : 1 < es.length)
    (h : ∀ e ∈ es, Derives .negation e.words e.dropDoubleNots) :
    Derives .primary (Expr.or es).words (Expr.or es).dropDoubleNots := by
  have hparts : ∀ x ∈ es.map fun e => (e.words, e.dropDoubleNots), Derives .conjunction x.1 x.2 :=
    List.forall_mem_map.mpr fun e he => (h e he).conjunction_of_negation
  have hderives := Derives.disjunction (by simpa using List.length_pos_iff.mp hlen.pos) hparts
  rw [List.map_map, List.map_map, Expr.disjunction_of_one_lt (by simpa using hlen)] at hderives
  rw [Expr.words, Expr.dropDoubleNots, Expr.wordsAll_eq_map, Expr.dropDoubleNotsAll_eq_map]
  exact .group hderives

end Derives

/-- The grammar derives the words of an expression, and reads them without double negations.  With
one more negation in front they read the negation of the expression: it may make a double negation
with one that the expression begins with. -/
theorem Expr.Plural.derives {e : Expr} (h : e.Plural) :
    Derives .negation e.words e.dropDoubleNots ∧
      Derives .negation (.not :: e.words) (Expr.not e).dropDoubleNots := by
  induction h with
  | atom t =>
    have hterm := Derives.term t
    exact ⟨hterm.negation_of_primary, hterm.not_of_primary⟩
  | not _ ih => exact ⟨ih.2, ih.1.not_not⟩
  | and hlen _ ih =>
    have hgroup := Derives.group_and hlen fun e he => (ih e he).1
    exact ⟨hgroup.negation_of_primary, hgroup.not_of_primary⟩
  | or hlen _ ih =>
    have hgroup := Derives.group_or hlen fun e he => (ih e he).1
    exact ⟨hgroup.negation_of_primary, hgroup.not_of_primary⟩

/-! ## The text of what a query reads -/

/-- The text of what a query reads is a query.  It reads the same without double negations, and
has the same clauses. -/
theorem parse_render {s : String} {e : Expr} (h : parse s = .ok e) :
    parse e.render = .ok e.dropDoubleNots ∧
      ∀ limits, compile limits s = compile limits e.render := by
  obtain ⟨ts, hspells, hread, hblank⟩ := parse_eq_ok_iff.mp h
  have hplural := (Parser.read?_eq_some_iff.mp hread).plural
  have hprintable : ∀ u ∈ e.terms, (Token.term u).Printable := fun u hu =>
    have hmem := (Parser.mem_terms_of_read? hread).mp hu
    hspells.printable hmem (hblank _ hmem)
  have hrender : Spells e.render.toList e.words := (hplural.spells_render hprintable).spells
  have hwords : Parser.read? e.words = some e.dropDoubleNots :=
    Parser.read?_eq_some_iff.mpr hplural.derives.1.conjunction_of_negation.disjunction_of_conjunction
  have hnone : ∀ t ∈ e.words, t.isBlankPhrase = false := by
    intro t ht
    cases t with
    | term u =>
      have hu := (Parser.mem_terms_of_read? hwords).mpr ht
      rw [Expr.terms_dropDoubleNots] at hu
      exact hblank _ ((Parser.mem_terms_of_read? hread).mp hu)
    | _ => rfl
  have hparse : parse e.render = .ok e.dropDoubleNots :=
    parse_eq_ok_iff.mpr ⟨e.words, hrender, hwords, hnone⟩
  refine ⟨hparse, fun limits => ?_⟩
  simp only [compile, h, hparse, compileExpr_dropDoubleNots]

/-- Two negations that parentheses keep apart are written next to each other. -/
theorem parse_render_of_nested :
    parse "not (~(A & @ B  c@))" =
        .ok (.not (.not (.and [.atom (.category "a"), .atom (.phrase "b  c")]))) ∧
      parse "NOT NOT (a AND @b  c@)" =
        .ok (.and [.atom (.category "a"), .atom (.phrase "b  c")]) ∧
      ∀ limits, compile limits "not (~(A & @ B  c@))" = compile limits "NOT NOT (a AND @b  c@)" := by
  have hparse : parse "not (~(A & @ B  c@))" =
      .ok (.not (.not (.and [.atom (.category "a"), .atom (.phrase "b  c")]))) := rfl
  exact ⟨hparse, parse_render hparse⟩

end PlaceSearch
