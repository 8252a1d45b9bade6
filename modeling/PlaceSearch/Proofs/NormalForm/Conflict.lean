import PlaceSearch.Proofs.Call.Opposed
import PlaceSearch.Proofs.Sorted

/-!
# Terms in conflict

The clauses of a query can be reduced to one set of texts to include and one to exclude.  A text
that stands on both sides is left out of both.  This settles a term that some clause includes and
another one excludes; but clauses tell a category from a phrase of the same text, and the two sets
do not.  So a term that is in conflict with no clause is left out too, if the other kind of term of
its text occurs with the opposite sign.  These are the only texts that are lost.
-/

namespace PlaceSearch

namespace Clause

/-- Some clause has the term, with this sign. -/
def Occurs (cs : List Clause) (negated : Bool) (t : Term) : Prop :=
  ∃ c ∈ cs, ⟨t, negated⟩ ∈ c.literals

/-- Some clause has the term with this sign, and none has it with the other one. -/
def OccursOnly (cs : List Clause) (negated : Bool) (t : Term) : Prop :=
  Occurs cs negated t ∧ ¬Occurs cs (!negated) t

/-- One of the two terms of a text occurs with one sign only, and the other one occurs with the
opposite sign. -/
def Crosses (cs : List Clause) (s : String) : Prop :=
  ∃ negated t u, t.text = s ∧ u.text = s ∧ OccursOnly cs negated t ∧ Occurs cs (!negated) u

variable {cs : List Clause} {c : Clause} {negated : Bool} {s : String} {t : Term}

theorem mem_literals_iff : ⟨t, negated⟩ ∈ c.literals ↔
    t ∈ if negated then c.excluded else c.included := by
  cases negated <;> simp [literals]

theorem mem_terms_of_mem_literals (h : ⟨t, negated⟩ ∈ c.literals) : t ∈ c.terms := by
  cases negated
  · exact List.mem_append_left _ (mem_literals_iff.mp h)
  · exact List.mem_append_right _ (mem_literals_iff.mp h)

end Clause

open Clause Optimize

/-! ## The two sides -/

/-- The texts on one side of the reduction of some clauses. -/
def reducedSide (cs : List Clause) (negated : Bool) : List String :=
  if negated then (reduceClauses cs).2 else (reduceClauses cs).1

variable {cs : List Clause} {c : Clause} {negated : Bool} {s : String}

theorem pairwise_reducedSide (cs : List Clause) (negated : Bool) :
    (reducedSide cs negated).Pairwise (· < ·) := by
  cases negated
  · exact (Sorted.pairwise_ofList _).filter _
  · exact (Sorted.pairwise_ofList _).filter _

/-- A text stands on a side if a term of it occurs with that sign, and none with the other. -/
theorem mem_reduceClauses_iff : s ∈ reducedSide cs negated ↔
    (∃ t, t.text = s ∧ Occurs cs negated t) ∧ ∀ t, t.text = s → ¬Occurs cs (!negated) t := by
  have htexts : ∀ side : Clause → List Term,
      s ∈ Sorted.ofList (cs.flatMap fun c => (side c).map (·.text)) ↔
        ∃ t, t.text = s ∧ ∃ c ∈ cs, t ∈ side c := by
    intro side
    simp only [Sorted.mem_ofList, List.mem_flatMap, List.mem_map]
    constructor
    · rintro ⟨c, hc, t, ht, rfl⟩
      exact ⟨t, rfl, c, hc, ht⟩
    · rintro ⟨t, rfl, c, hc, ht⟩
      exact ⟨c, hc, t, ht, rfl⟩
  have hside : s ∈ reducedSide cs negated ↔
      s ∈ Sorted.ofList (cs.flatMap fun c =>
        (if negated then c.excluded else c.included).map (·.text)) ∧
      s ∉ Sorted.ofList (cs.flatMap fun c =>
        (if !negated then c.excluded else c.included).map (·.text)) := by
    cases negated <;> simp [reducedSide, reduceClauses]
  rw [hside, htexts fun c => if negated then c.excluded else c.included,
    htexts fun c => if !negated then c.excluded else c.included]
  simp only [Occurs, mem_literals_iff, not_exists, not_and]

/-- No text stands on a side that no term of it, free of conflict, brings there. -/
theorem exists_occursOnly_of_mem_reduceClauses (h : s ∈ reducedSide cs negated) :
    ∃ t, t.text = s ∧ OccursOnly cs negated t := by
  obtain ⟨⟨t, ht, hoccurs⟩, hnone⟩ := mem_reduceClauses_iff.mp h
  exact ⟨t, ht, hoccurs, hnone t ht⟩

/-- The sides hold the texts of all terms that are in no conflict, unless two kinds of terms of one
text get into each other's way. -/
theorem reduceClauses_eq_iff :
    (∀ negated s, s ∈ reducedSide cs negated ↔ ∃ t, t.text = s ∧ OccursOnly cs negated t) ↔
      ∀ s, ¬Crosses cs s := by
  constructor
  · rintro h s ⟨negated, t, u, ht, hu, honly, hopposite⟩
    exact (mem_reduceClauses_iff.mp ((h negated s).mpr ⟨t, ht, honly⟩)).2 u hu hopposite
  · refine fun h negated s => ⟨exists_occursOnly_of_mem_reduceClauses, ?_⟩
    rintro ⟨t, ht, honly⟩
    exact mem_reduceClauses_iff.mpr
      ⟨⟨t, ht, honly.1⟩, fun u hu hopposite => h s ⟨negated, t, u, ht, hu, honly, hopposite⟩⟩

/-! ## Clauses that are compiled -/

/-- Two terms of one text are a category and a phrase. -/
theorem Term.mem_both_of_text_eq {ts : List Term} {t u : Term} (hne : t ≠ u)
    (htext : t.text = u.text) (ht : t ∈ ts) (hu : u ∈ ts) :
    .category t.text ∈ ts ∧ .phrase t.text ∈ ts := by
  obtain ⟨kind, text⟩ := t
  obtain ⟨kind', text'⟩ := u
  obtain rfl : text = text' := htext
  cases kind <;> cases kind'
  · exact absurd rfl hne
  · exact ⟨ht, hu⟩
  · exact ⟨hu, ht⟩
  · exact absurd rfl hne

/-- Terms cross only if their text is both a category and a phrase of the expression. -/
theorem Clause.Crosses.mem_terms {limits : Limits} {e : Expr}
    (h : compileExpr limits e = .ok cs) (hcross : Crosses cs s) :
    .category s ∈ e.terms ∧ .phrase s ∈ e.terms := by
  obtain ⟨negated, t, u, rfl, hu, ⟨⟨c, hc, ht⟩, hnot⟩, hopposite⟩ := hcross
  have hne : t ≠ u := by
    rintro rfl
    exact hnot hopposite
  obtain ⟨d, hd, hterm⟩ := hopposite
  exact Term.mem_both_of_text_eq hne hu.symm
    (mem_terms_of_mem_compileExpr h hc (mem_terms_of_mem_literals ht))
    (mem_terms_of_mem_compileExpr h hd (mem_terms_of_mem_literals hterm))

theorem mem_texts_iff {ts : List Term} : s ∈ texts ts ↔ ∃ t, t.text = s ∧ t ∈ ts := by
  simp only [texts, List.mem_map, and_comm]

/-- The reduction of one clause has its texts, but for those that stand on both sides of it. -/
theorem mem_reducedSide_singleton_iff : s ∈ reducedSide [c] negated ↔
    s ∈ texts (if negated then c.excluded else c.included) ∧
      s ∉ texts (if negated then c.included else c.excluded) := by
  simp only [mem_reduceClauses_iff, Occurs, List.mem_singleton, exists_eq_left, mem_literals_iff,
    mem_texts_iff, not_exists, not_and]
  cases negated <;> rfl

/-- One clause reduces to its own texts exactly if it opposes no terms of one text. -/
theorem reducedSide_singleton_eq_iff (hc : ∀ t ∈ c.included, t ∉ c.excluded) :
    (∀ s, (s ∈ reducedSide [c] false ↔ s ∈ texts c.included) ∧
        (s ∈ reducedSide [c] true ↔ s ∈ texts c.excluded)) ↔
      ∀ s, ¬c.Opposes s := by
  refine forall_congr' fun s => ?_
  rw [opposes_iff hc, mem_reducedSide_singleton_iff, mem_reducedSide_singleton_iff]
  simp only [Bool.false_eq_true, if_false, if_true]
  tauto

/-- A query that compiles is reduced to two increasing lists.  A text stands on a side exactly if
some term of it occurs with that sign in the clauses and no term of it with the other one.  So each
text that is there comes from a term that is in no conflict.  All these terms have their texts
there exactly if no terms cross, which holds for queries in which no text is both a category and a
phrase; and a single clause gives exactly its own texts if and only if it does not include a text
as one kind of term and exclude it as the other. -/
theorem reduce_settles_terms {limits : Limits} {query : String}
    (h : compile limits query = .ok cs) :
    ∃ included excluded, reduce limits query = .ok (included, excluded) ∧
      included.Pairwise (· < ·) ∧ excluded.Pairwise (· < ·) ∧
      (∀ s, s ∈ included ↔
        (∃ t, t.text = s ∧ Occurs cs false t) ∧ ∀ t, t.text = s → ¬Occurs cs true t) ∧
      (∀ s, s ∈ excluded ↔
        (∃ t, t.text = s ∧ Occurs cs true t) ∧ ∀ t, t.text = s → ¬Occurs cs false t) ∧
      ((∀ s, (s ∈ included ↔ ∃ t, t.text = s ∧ OccursOnly cs false t) ∧
          (s ∈ excluded ↔ ∃ t, t.text = s ∧ OccursOnly cs true t)) ↔ ∀ s, ¬Crosses cs s) ∧
      (∀ e, parse query = .ok e → (∀ s, .category s ∈ e.terms → .phrase s ∉ e.terms) →
        ∀ s, ¬Crosses cs s) ∧
      ∀ c, cs = [c] →
        ((∀ s, (s ∈ included ↔ s ∈ texts c.included) ∧ (s ∈ excluded ↔ s ∈ texts c.excluded)) ↔
          ∀ s, ¬c.Opposes s) := by
  obtain ⟨e, hparse, hcompile⟩ : ∃ e, parse query = .ok e ∧ compileExpr limits e = .ok cs := by
    rw [compile] at h
    split at h
    · cases h
    · exact ⟨_, ‹_›, h⟩
  refine ⟨reducedSide cs false, reducedSide cs true, ?_, pairwise_reducedSide cs false,
    pairwise_reducedSide cs true, fun s => mem_reduceClauses_iff, fun s => mem_reduceClauses_iff,
    ?_, fun e' hparse' hterms s hcross => ?_, fun c hcs => ?_⟩
  · rw [reduce, h]
    rfl
  · rw [← reduceClauses_eq_iff, Bool.forall_bool]
    exact forall_and
  · obtain rfl := Except.ok.inj (hparse.symm.trans hparse')
    obtain ⟨hcategory, hphrase⟩ := hcross.mem_terms hcompile
    exact hterms s hcategory hphrase
  · subst hcs
    exact reducedSide_singleton_eq_iff
      (not_mem_excluded_of_mem_compileExpr hcompile List.mem_cons_self)

/-- `foo & ~@foo@` is one clause that includes a category and excludes a phrase.  Both are in no
conflict, but they have one text, and nothing is left of them. -/
theorem reduce_settles_terms_of_category_and_phrase :
    let c : Clause := ⟨[.category "foo"], [.phrase "foo"]⟩
    compile {} "foo AND NOT @foo@" = .ok [c] ∧ reduce {} "foo AND NOT @foo@" = .ok ([], []) ∧
      OccursOnly [c] false (.category "foo") ∧ OccursOnly [c] true (.phrase "foo") ∧
      Crosses [c] "foo" ∧
      ¬∀ included excluded, reduce {} "foo AND NOT @foo@" = .ok (included, excluded) →
        ∀ s, (s ∈ included ↔ ∃ t, t.text = s ∧ OccursOnly [c] false t) ∧
          (s ∈ excluded ↔ ∃ t, t.text = s ∧ OccursOnly [c] true t) := by
  intro c
  have h : compile {} "foo AND NOT @foo@" = .ok [c] := by decide +kernel
  have hreduce : reduce {} "foo AND NOT @foo@" = .ok ([], []) := by decide +kernel
  have hcategory : OccursOnly [c] false (.category "foo") := by
    simp [OccursOnly, Occurs, mem_literals_iff, c, Term.category, Term.phrase]
  have hphrase : OccursOnly [c] true (.phrase "foo") := by
    simp [OccursOnly, Occurs, mem_literals_iff, c, Term.category, Term.phrase]
  have hcross : Crosses [c] "foo" :=
    ⟨false, .category "foo", .phrase "foo", rfl, rfl, hcategory, hphrase.1⟩
  obtain ⟨included, excluded, hsides, -, -, -, -, hiff, -, -⟩ := reduce_settles_terms h
  exact ⟨h, hreduce, hcategory, hphrase, hcross,
    fun hall => hiff.mp (hall included excluded hsides) "foo" hcross⟩

end PlaceSearch
