import PlaceSearch.NormalForm.Dnf
import PlaceSearch.Proofs.NormalForm.Conjunction

/-!
# Truth of the disjunctive normal form

Multiplying out and simplifying keep the truth of an expression.  Both halves are stated with
one predicate: `Means n σ cs b` says that the conjunctions `cs` are proper over `n` symbols
and that their disjunction has the truth value `b` when the symbols of the mask `σ` hold.
Every operation on lists of conjunctions has a lemma that says what it does to this
predicate, so that multiplying out is one induction over the expression and simplifying one
over the number of rounds.
-/

namespace PlaceSearch.Dnf

/-- Proper conjunctions over `n` symbols whose disjunction has the truth value `b` when the
symbols of the mask `σ` hold. -/
structure Means (n σ : Nat) (cs : List Conjunction) (b : Bool) : Prop where
  proper : ∀ c ∈ cs, c.Proper n
  eval : cs.any (·.eval σ) = b

/-! ## Multiplying out -/

@[simp] theorem mem_adjoin {c d : Conjunction} {cs : List Conjunction} :
    d ∈ adjoin cs c ↔ d ∈ cs ∨ d = c := by
  simp only [adjoin, List.contains_iff_mem]
  split
  · next h =>
    constructor
    · exact .inl
    · rintro (h' | rfl)
      · exact h'
      · exact h
  · simp

theorem mem_foldl_adjoin {d : Conjunction} {cs acc : List Conjunction} :
    d ∈ cs.foldl adjoin acc ↔ d ∈ acc ∨ d ∈ cs := by
  induction cs generalizing acc with
  | nil => simp
  | cons c cs ih => rw [List.foldl_cons, ih, mem_adjoin, List.mem_cons, or_assoc]

/-- One conjunction combined with those of a factor. -/
private theorem mem_foldl_meet {c e : Conjunction} {factor acc : List Conjunction} :
    e ∈ factor.foldl (fun acc d =>
        let both := c.meet d
        if both.isContradiction then acc else adjoin acc both) acc ↔
      e ∈ acc ∨ ∃ d ∈ factor, c.meet d = e ∧ e.isContradiction = false := by
  induction factor generalizing acc with
  | nil => simp
  | cons d factor ih =>
    rw [List.foldl_cons, ih]
    simp only [List.mem_cons, exists_eq_or_imp]
    split
    · next h =>
      have hne : ¬(c.meet d = e ∧ e.isContradiction = false) := by
        rintro ⟨rfl, hf⟩
        simp [h] at hf
      simp [hne]
    · next h =>
      have heq : (c.meet d = e ∧ e.isContradiction = false) ↔ e = c.meet d := by
        constructor
        · exact fun he => he.1.symm
        · rintro rfl
          exact ⟨rfl, by simpa using h⟩
      rw [mem_adjoin, heq, or_assoc]

/-- A product holds the meets of its factors that are no contradictions. -/
theorem mem_combine {e : Conjunction} {product factor : List Conjunction} :
    e ∈ combine product factor ↔
      ∃ c ∈ product, ∃ d ∈ factor, c.meet d = e ∧ e.isContradiction = false := by
  have key : ∀ acc : List Conjunction,
      e ∈ product.foldl (fun acc c => factor.foldl (fun acc d =>
        let both := c.meet d
        if both.isContradiction then acc else adjoin acc both) acc) acc ↔
      e ∈ acc ∨ ∃ c ∈ product, ∃ d ∈ factor, c.meet d = e ∧ e.isContradiction = false := by
    induction product with
    | nil => simp
    | cons c product ih =>
      intro acc
      rw [List.foldl_cons, ih, mem_foldl_meet, or_assoc]
      simp only [List.mem_cons, exists_eq_or_imp]
  simpa [combine] using key []

theorem Means.combine {n σ : Nat} {cs ds : List Conjunction} {a b : Bool}
    (hc : Means n σ cs a) (hd : Means n σ ds b) : Means n σ (combine cs ds) (a && b) where
  proper e he := by
    obtain ⟨c, hcm, d, hdm, rfl, hcons⟩ := mem_combine.mp he
    exact (hc.proper c hcm).meet (hd.proper d hdm) hcons
  eval := by
    rw [← hc.eval, ← hd.eval, Bool.eq_iff_iff, Bool.and_eq_true]
    simp only [List.any_eq_true, mem_combine]
    constructor
    · rintro ⟨e, ⟨c, hcm, d, hdm, rfl, -⟩, he⟩
      rw [Conjunction.eval_meet, Bool.and_eq_true] at he
      exact ⟨⟨c, hcm, he.1⟩, d, hdm, he.2⟩
    · rintro ⟨⟨c, hcm, hce⟩, d, hdm, hde⟩
      have he : (c.meet d).eval σ = true := by
        rw [Conjunction.eval_meet, hce, hde, Bool.and_self]
      exact ⟨c.meet d, ⟨c, hcm, d, hdm, rfl, Conjunction.isContradiction_of_eval he⟩, he⟩

theorem Means.foldl_adjoin {n σ : Nat} {cs acc : List Conjunction} {a b : Bool}
    (ha : Means n σ acc a) (hc : Means n σ cs b) :
    Means n σ (cs.foldl adjoin acc) (a || b) where
  proper d hd := (mem_foldl_adjoin.mp hd).elim (ha.proper d) (hc.proper d)
  eval := by
    rw [← ha.eval, ← hc.eval, Bool.eq_iff_iff, Bool.or_eq_true]
    simp only [List.any_eq_true, mem_foldl_adjoin]
    constructor
    · rintro ⟨d, h | h, hd⟩
      · exact .inl ⟨d, h, hd⟩
      · exact .inr ⟨d, h, hd⟩
    · rintro (⟨d, h, hd⟩ | ⟨d, h, hd⟩)
      · exact ⟨d, .inl h, hd⟩
      · exact ⟨d, .inr h, hd⟩

/-- The mask `σ` holds the symbols of the terms that are true. -/
def Tracks (table : SymbolTable) (holds : Term → Bool) (σ : Nat) : Prop :=
  ∀ t s, table.symbol? t = some s → s < table.size ∧ σ.testBit s = holds t

section Distribute

variable {table : SymbolTable} {cap : Nat} {holds : Term → Bool} {σ : Nat}

theorem evalAll_eq_all (es : List Expr) : Expr.evalAll holds es = es.all (·.eval holds) := by
  induction es with
  | nil => rfl
  | cons e es ih => rw [Expr.evalAll, List.all_cons, ih]

theorem evalAny_eq_any (es : List Expr) : Expr.evalAny holds es = es.any (·.eval holds) := by
  induction es with
  | nil => rfl
  | cons e es ih => rw [Expr.evalAny, List.any_cons, ih]

mutual

/-- An expression multiplies out to conjunctions that mean the same, and so does its
negation.  A negated conjunction is a sum of negated operands, a negated disjunction a
product of them. -/
theorem distribute_means (hσ : Tracks table holds σ) :
    ∀ (e : Expr) {negated : Bool} {cs : List Conjunction},
      distribute table cap e negated = .ok cs →
        Means table.size σ cs (e.eval holds != negated)
  | .atom t, negated, cs, h => by
    rw [distribute] at h
    cases hs : table.symbol? t with
    | none => simp [hs] at h
    | some s =>
      obtain ⟨hlt, hbit⟩ := hσ t s hs
      simp only [hs, Except.ok.injEq] at h
      subst h
      refine ⟨?_, ?_⟩
      · simpa using Conjunction.proper_literal hlt negated
      · simp [Conjunction.eval_literal, hbit, Expr.eval]
  | .not e, negated, cs, h => by
    rw [distribute] at h
    have ih := distribute_means hσ e h
    cases negated <;> simpa [Expr.eval] using ih
  | .and es, negated, cs, h => by
    rw [distribute] at h
    cases negated with
    | false =>
      have ih := product_means hσ es h ⟨by simpa using Conjunction.proper_top _, rfl⟩
      simpa [Expr.eval, evalAll_eq_all] using ih
    | true =>
      have ih := sum_means hσ es h ⟨by simp, rfl⟩
      simpa [Expr.eval, evalAll_eq_all, List.not_all_eq_any_not] using ih
  | .or es, negated, cs, h => by
    rw [distribute] at h
    cases negated with
    | false =>
      have ih := sum_means hσ es h ⟨by simp, rfl⟩
      simpa [Expr.eval, evalAny_eq_any] using ih
    | true =>
      have ih := product_means hσ es h ⟨by simpa using Conjunction.proper_top _, rfl⟩
      simpa [Expr.eval, evalAny_eq_any, List.not_any_eq_all_not] using ih

/-- A product is true iff what it started from is and every operand, negated or not, is.  It
stops early once nothing is left of it, and is false then. -/
theorem product_means (hσ : Tracks table holds σ) :
    ∀ (es : List Expr) {negated b : Bool} {acc cs : List Conjunction},
      product table cap es negated acc = .ok cs → Means table.size σ acc b →
        Means table.size σ cs (b && es.all (·.eval holds != negated))
  | [], negated, b, acc, cs, h, hacc => by
    rw [product] at h
    cases h
    simpa using hacc
  | e :: es, negated, b, acc, cs, h, hacc => by
    rw [product] at h
    rw [List.all_cons, ← Bool.and_assoc]
    cases hf : distribute table cap e negated with
    | error err => simp [hf] at h
    | ok factor =>
      have hnext := hacc.combine (distribute_means hσ e hf)
      simp only [hf] at h
      split at h
      · cases h
      split at h
      · next hempty =>
        rw [List.isEmpty_iff] at hempty
        cases h
        refine ⟨by simp, ?_⟩
        rw [← hnext.eval, hempty]
        rfl
      · exact product_means hσ es h hnext

/-- A sum is true iff what it started from is or some operand, negated or not, is. -/
theorem sum_means (hσ : Tracks table holds σ) :
    ∀ (es : List Expr) {negated b : Bool} {acc cs : List Conjunction},
      sum table cap es negated acc = .ok cs → Means table.size σ acc b →
        Means table.size σ cs (b || es.any (·.eval holds != negated))
  | [], negated, b, acc, cs, h, hacc => by
    rw [sum] at h
    cases h
    simpa using hacc
  | e :: es, negated, b, acc, cs, h, hacc => by
    rw [sum] at h
    rw [List.any_cons, ← Bool.or_assoc]
    cases hf : distribute table cap e negated with
    | error err => simp [hf] at h
    | ok factor =>
      have hnext := hacc.foldl_adjoin (distribute_means hσ e hf)
      simp only [hf] at h
      split at h
      · cases h
      · exact sum_means hσ es h hnext

end

end Distribute

end PlaceSearch.Dnf
