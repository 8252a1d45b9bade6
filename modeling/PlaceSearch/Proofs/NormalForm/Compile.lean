import PlaceSearch.NormalForm.Compile
import PlaceSearch.Proofs.NormalForm.Simplify

/-!
# Truth of compiled clauses

The way from an expression to clauses goes through symbols and back.  A symbol table turns an
assignment of the terms into a mask of symbols, `SymbolTable.mask`, and the truth of a
conjunction over symbols is the truth of the clause that it decomposes into.  Put together
with the normal form this says that compiling keeps the meaning of an expression.
-/

namespace PlaceSearch

/-! ## Clauses of literals -/

namespace Clause

/-- The truth of a literal under an assignment of the terms. -/
def literalHolds (holds : Term → Bool) (l : Literal) : Bool :=
  holds l.term != l.negated

/-- A clause is true iff its literals are.  Literals that contradict each other make no clause
and are not all true. -/
theorem any_eval_ofLiterals? (holds : Term → Bool) (ls : List Literal) :
    (ofLiterals? ls).any (eval holds) = ls.all (literalHolds holds) := by
  have hall : ls.all (literalHolds holds) = true ↔
      (∀ l ∈ ls, l.negated = false → holds l.term = true) ∧
        ∀ l ∈ ls, l.negated = true → holds l.term = false := by
    simp only [List.all_eq_true, literalHolds]
    constructor
    · intro h
      refine ⟨fun l hl hn => ?_, fun l hl hn => ?_⟩
      · simpa [hn] using h l hl
      · simpa [hn] using h l hl
    · rintro ⟨hpos, hneg⟩ l hl
      cases hn : l.negated with
      | false => simpa using hpos l hl hn
      | true => simpa using hneg l hl hn
  have hinc : ∀ t, t ∈ Sorted.ofList ((ls.filter (!·.negated)).map (·.term)) ↔
      ∃ l ∈ ls, l.negated = false ∧ l.term = t := by
    simp [and_assoc]
  have hexc : ∀ t, t ∈ Sorted.ofList ((ls.filter (·.negated)).map (·.term)) ↔
      ∃ l ∈ ls, l.negated = true ∧ l.term = t := by
    simp [and_assoc]
  rw [Bool.eq_iff_iff, hall]
  simp only [ofLiterals?]
  split
  · next hboth =>
    simp only [List.any_eq_true, List.contains_iff_mem, hinc, hexc] at hboth
    obtain ⟨t, ⟨l, hl, hn, rfl⟩, l', hl', hn', heq⟩ := hboth
    constructor
    · rintro ⟨⟩
    · rintro ⟨hpos, hneg⟩
      have htrue := hpos l hl hn
      rw [← heq, hneg l' hl' hn'] at htrue
      cases htrue
  · simp only [Option.any_some, eval, Bool.and_eq_true, List.all_eq_true, hinc, hexc,
      Bool.not_eq_true']
    constructor
    · rintro ⟨hpos, hneg⟩
      exact ⟨fun l hl hn => hpos _ ⟨l, hl, hn, rfl⟩, fun l hl hn => hneg _ ⟨l, hl, hn, rfl⟩⟩
    · rintro ⟨hpos, hneg⟩
      constructor
      · rintro _ ⟨l, hl, hn, rfl⟩
        exact hpos l hl hn
      · rintro _ ⟨l, hl, hn, rfl⟩
        exact hneg l hl hn

/-- A clause made of literals can be true: no term stands on both sides. -/
theorem exists_eval_of_ofLiterals? {ls : List Literal} {c : Clause}
    (h : ofLiterals? ls = some c) : ∃ holds : Term → Bool, c.eval holds = true := by
  refine ⟨c.included.contains, ?_⟩
  simp only [ofLiterals?] at h
  split at h
  · cases h
  · next hboth =>
    cases h
    simp only [eval, Bool.and_eq_true, List.all_eq_true, List.contains_iff_mem,
      Bool.not_eq_true', ← Bool.not_eq_true]
    refine ⟨fun t ht => ht, fun t ht hinc => hboth ?_⟩
    rw [List.any_eq_true]
    exact ⟨t, hinc, by simpa using ht⟩

/-- A clause made of literals has no terms but theirs. -/
theorem exists_of_mem_terms {ls : List Literal} {c : Clause} (h : ofLiterals? ls = some c)
    {t : Term} (ht : t ∈ c.terms) : ∃ l ∈ ls, l.term = t := by
  simp only [ofLiterals?] at h
  split at h
  · cases h
  · cases h
    simp only [terms, List.mem_append, Sorted.mem_ofList, List.mem_map, List.mem_filter] at ht
    rcases ht with ⟨l, ⟨hl, -⟩, rfl⟩ | ⟨l, ⟨hl, -⟩, rfl⟩
    · exact ⟨l, hl, rfl⟩
    · exact ⟨l, hl, rfl⟩

end Clause

/-! ## From terms to symbols and back -/

namespace SymbolTable

/-- The symbols of the terms of a list that hold, the first term being symbol zero. -/
def maskOf (holds : Term → Bool) : List Term → Nat
  | [] => 0
  | t :: ts => 2 * maskOf holds ts + (holds t).toNat

theorem testBit_maskOf (holds : Term → Bool) (ts : List Term) (s : Nat) :
    (maskOf holds ts).testBit s = ts[s]?.any holds := by
  induction ts generalizing s with
  | nil => simp [maskOf]
  | cons t ts ih =>
    have hdiv : (2 * maskOf holds ts + (holds t).toNat) / 2 = maskOf holds ts := by
      have := (holds t).toNat_le
      omega
    cases s with
    | zero => cases h : holds t <;> simp [maskOf, h, Nat.testBit_zero]
    | succ s => rw [maskOf, Nat.testBit_succ, hdiv, ih, List.getElem?_cons_succ]

/-- The symbols of a table whose terms hold. -/
def mask (table : SymbolTable) (holds : Term → Bool) : Nat :=
  maskOf holds table.terms

theorem tracks_mask (table : SymbolTable) (holds : Term → Bool) :
    Dnf.Tracks table holds (table.mask holds) := by
  intro t s hs
  obtain ⟨hlt, hget, -⟩ := List.idxOf?_eq_some_iff.mp hs
  refine ⟨hlt, ?_⟩
  rw [mask, testBit_maskOf, List.getElem?_eq_getElem hlt, hget]
  rfl

theorem mem_literals {table : SymbolTable} {c : Conjunction} {l : Literal} :
    l ∈ table.literals c ↔ ∃ s, table.terms[s]? = some l.term ∧
      if l.negated then c.neg.testBit s = true else c.pos.testBit s = true := by
  simp only [literals, List.mem_flatMap, Prod.exists, List.mem_zipIdx_iff_getElem?,
    List.mem_append]
  obtain ⟨t, negated⟩ := l
  constructor
  · rintro ⟨u, s, hs, h | h⟩
    · split at h
      · next hbit =>
        cases List.mem_singleton.mp h
        exact ⟨s, hs, hbit⟩
      · cases h
    · split at h
      · next hbit =>
        cases List.mem_singleton.mp h
        exact ⟨s, hs, hbit⟩
      · cases h
  · rintro ⟨s, hs, hbit⟩
    refine ⟨t, s, hs, ?_⟩
    cases negated with
    | false => exact .inl (by simpa using hbit)
    | true => exact .inr (by simpa using hbit)

/-- The literals of a proper conjunction are true iff the conjunction is: all its symbols
belong to the table, so that none is lost on the way back. -/
theorem all_literals {table : SymbolTable} {c : Conjunction} (hc : c.Proper table.size)
    (holds : Term → Bool) :
    (table.literals c).all (Clause.literalHolds holds) = c.eval (table.mask holds) := by
  have hbit : ∀ s t, table.terms[s]? = some t → (table.mask holds).testBit s = holds t := by
    intro s t hs
    rw [mask, testBit_maskOf, hs]
    rfl
  rw [Bool.eq_iff_iff, Conjunction.eval_eq_true_iff, List.all_eq_true]
  constructor
  · intro h
    constructor
    · intro s hs
      have hget := List.getElem?_eq_getElem (hc.pos_lt s hs)
      rw [hbit s _ hget]
      simpa [Clause.literalHolds] using h ⟨_, false⟩ (mem_literals.mpr ⟨s, hget, by simpa⟩)
    · intro s hs
      have hget := List.getElem?_eq_getElem (hc.neg_lt s hs)
      rw [hbit s _ hget]
      simpa [Clause.literalHolds] using h ⟨_, true⟩ (mem_literals.mpr ⟨s, hget, by simpa⟩)
  · rintro ⟨hpos, hneg⟩ ⟨t, negated⟩ hl
    obtain ⟨s, hs, hsign⟩ := mem_literals.mp hl
    rw [Clause.literalHolds, ← hbit s t hs]
    cases negated with
    | false => simpa using hpos s hsign
    | true => simpa using hneg s hsign

/-- Going back from symbols to terms keeps the truth of a disjunction. -/
theorem evalAny_decompose {table : SymbolTable} {cs : List Conjunction}
    (hc : ∀ c ∈ cs, c.Proper table.size) (holds : Term → Bool) :
    Clause.evalAny holds (table.decompose cs) = cs.any (·.eval (table.mask holds)) := by
  rw [Clause.evalAny, decompose, List.any_filterMap, Bool.eq_iff_iff, List.any_eq_true,
    List.any_eq_true]
  have hone : ∀ c ∈ cs, (Clause.ofLiterals? (table.literals c)).any (Clause.eval holds) =
      c.eval (table.mask holds) := by
    intro c hmem
    rw [Clause.any_eval_ofLiterals?, all_literals (hc c hmem)]
  constructor
  · rintro ⟨c, hmem, h⟩
    exact ⟨c, hmem, (hone c hmem).symm.trans h⟩
  · rintro ⟨c, hmem, h⟩
    exact ⟨c, hmem, (hone c hmem).trans h⟩

end SymbolTable

/-! ## Compiling -/

theorem SymbolTable.eq_of_ofExpr {e : Expr} {cap : Nat} {table : SymbolTable}
    (h : ofExpr e cap = .ok table) : table = ⟨e.terms⟩ := by
  rw [ofExpr] at h
  split at h
  · cases h
  · exact (Except.ok.inj h).symm

theorem compileExpr_eq_ok {limits : Limits} {e : Expr} {cs : List Clause}
    (h : compileExpr limits e = .ok cs) :
    ∃ ds, Dnf.ofExpr e ⟨e.terms⟩ limits.maxClauses = .ok ds ∧
      cs = SymbolTable.decompose ⟨e.terms⟩ ds := by
  rw [compileExpr] at h
  split at h
  · cases h
  · next table htable =>
    obtain rfl := SymbolTable.eq_of_ofExpr htable
    cases hd : Dnf.ofExpr e ⟨e.terms⟩ limits.maxClauses with
    | error err => simp [hd, Except.map] at h
    | ok ds =>
      simp only [hd, Except.map, Except.ok.injEq] at h
      exact ⟨ds, rfl, h.symm⟩

/-- Compiling brings in no terms. -/
theorem mem_terms_of_mem_compileExpr {limits : Limits} {e : Expr} {cs : List Clause}
    (h : compileExpr limits e = .ok cs) {c : Clause} (hc : c ∈ cs) {t : Term}
    (ht : t ∈ c.terms) : t ∈ e.terms := by
  obtain ⟨ds, -, rfl⟩ := compileExpr_eq_ok h
  obtain ⟨d, -, hd⟩ := List.mem_filterMap.mp hc
  obtain ⟨l, hl, rfl⟩ := Clause.exists_of_mem_terms hd ht
  obtain ⟨s, hs, -⟩ := SymbolTable.mem_literals.mp hl
  exact List.mem_of_getElem? hs

/-- The clauses of an expression say what the expression says. -/
theorem evalAny_compileExpr {limits : Limits} {e : Expr} {cs : List Clause}
    (h : compileExpr limits e = .ok cs) (holds : Term → Bool) :
    Clause.evalAny holds cs = e.eval holds := by
  obtain ⟨ds, hd, rfl⟩ := compileExpr_eq_ok h
  have hmeans := Dnf.ofExpr_means (SymbolTable.tracks_mask ⟨e.terms⟩ holds) hd
  rw [SymbolTable.evalAny_decompose hmeans.proper, hmeans.eval]

/-- A compiled clause can be true. -/
theorem exists_eval_of_mem_compileExpr {limits : Limits} {e : Expr} {cs : List Clause}
    (h : compileExpr limits e = .ok cs) {c : Clause} (hc : c ∈ cs) :
    ∃ holds : Term → Bool, c.eval holds = true := by
  obtain ⟨ds, -, rfl⟩ := compileExpr_eq_ok h
  obtain ⟨d, -, hd⟩ := List.mem_filterMap.mp hc
  exact Clause.exists_eval_of_ofLiterals? hd

/-- Compiling keeps the meaning of an expression, whatever the limits: its clauses are true
under the same assignments, and there are none exactly if no assignment makes it true. -/
theorem compileExpr_equivalent {limits : Limits} {e : Expr} {cs : List Clause}
    (h : compileExpr limits e = .ok cs) :
    (∀ holds : Term → Bool, Clause.evalAny holds cs = e.eval holds) ∧
      (cs = [] ↔ ∀ holds : Term → Bool, e.eval holds = false) := by
  refine ⟨evalAny_compileExpr h, ?_, ?_⟩
  · rintro rfl holds
    rw [← evalAny_compileExpr h]
    rfl
  · intro hunsat
    rw [List.eq_nil_iff_forall_not_mem]
    intro c hc
    obtain ⟨holds, htrue⟩ := exists_eval_of_mem_compileExpr h hc
    have hfalse := hunsat holds
    rw [← evalAny_compileExpr h, Clause.evalAny, List.any_eq_false] at hfalse
    exact hfalse c hc htrue

/-- `a & b | ~(~a | b)` is merged into `a`, under a cap on terms that no mask could hold. -/
theorem compileExpr_equivalent_merged :
    let a : Expr := .atom (.category "a")
    let b : Expr := .atom (.phrase "b c")
    let e : Expr := .or [.and [a, b], .not (.or [.not a, b])]
    let cs : List Clause := [⟨[.category "a"], []⟩]
    compileExpr { maxTerms := 100 } e = .ok cs ∧
      (∀ holds : Term → Bool, Clause.evalAny holds cs = e.eval holds) ∧
        (cs = [] ↔ ∀ holds : Term → Bool, e.eval holds = false) :=
  have h : compileExpr { maxTerms := 100 } _ = .ok _ := rfl
  ⟨h, compileExpr_equivalent h⟩

end PlaceSearch
