import Mathlib.Data.Finset.Card
import PlaceSearch.Proofs.NormalForm.Compile

/-!
# The limits of compiling

The two caps of the compiler refuse expressions but never change the clauses of one that is
accepted: a run under a cap is, step by step, the run under any larger cap.  The cap on terms is
checked against the number of distinct terms before anything else is done.  After that every term
has its symbol, so that only the cap on clauses can still be exceeded.
-/

namespace PlaceSearch

/-! ## Distinct terms -/

namespace Expr

mutual

/-- The terms of an expression from left to right, as often as they occur. -/
def leaves : Expr → List Term
  | .atom t => [t]
  | .not e => leaves e
  | .and es => leavesAll es
  | .or es => leavesAll es

/-- The terms of the operands. -/
def leavesAll : List Expr → List Term
  | [] => []
  | e :: es => leaves e ++ leavesAll es

end

/-- The list with one more term, unless it is there already. -/
def see (seen : List Term) (t : Term) : List Term :=
  if seen.contains t then seen else seen ++ [t]

mutual

theorem collect_eq_foldl : ∀ (seen : List Term) (e : Expr),
    collect seen e = e.leaves.foldl see seen
  | _, .atom _ => rfl
  | seen, .not e => collect_eq_foldl seen e
  | seen, .and es => collectAll_eq_foldl seen es
  | seen, .or es => collectAll_eq_foldl seen es

theorem collectAll_eq_foldl : ∀ (seen : List Term) (es : List Expr),
    collectAll seen es = (leavesAll es).foldl see seen
  | _, [] => rfl
  | seen, e :: es => by
    rw [collectAll, collect_eq_foldl seen e, collectAll_eq_foldl, leavesAll, List.foldl_append]

end

theorem mem_see {seen : List Term} {t u : Term} : u ∈ see seen t ↔ u ∈ seen ∨ u = t := by
  rw [see]
  split
  · next h =>
    rw [List.contains_iff_mem] at h
    exact ⟨.inl, fun hu => hu.elim id fun heq => heq ▸ h⟩
  · rw [List.mem_append, List.mem_singleton]

theorem nodup_see {seen : List Term} (h : seen.Nodup) (t : Term) : (see seen t).Nodup := by
  rw [see]
  split
  · exact h
  · next hnot =>
    rw [List.contains_iff_mem] at hnot
    refine List.nodup_append.mpr ⟨h, List.nodup_singleton t, fun u hu v hv => ?_⟩
    rintro rfl
    exact hnot (List.mem_singleton.mp hv ▸ hu)

theorem mem_foldl_see {ts seen : List Term} {u : Term} :
    u ∈ ts.foldl see seen ↔ u ∈ seen ∨ u ∈ ts := by
  induction ts generalizing seen with
  | nil => simp
  | cons t ts ih => rw [List.foldl_cons, ih, mem_see, List.mem_cons, or_assoc]

theorem nodup_foldl_see (ts : List Term) {seen : List Term} (h : seen.Nodup) :
    (ts.foldl see seen).Nodup := by
  induction ts generalizing seen with
  | nil => exact h
  | cons t ts ih => exact ih (nodup_see h t)

/-- The terms of an expression are the ones at its leaves. -/
theorem mem_terms {e : Expr} {t : Term} : t ∈ e.terms ↔ t ∈ e.leaves := by
  simp [terms, collect_eq_foldl, mem_foldl_see]

theorem nodup_terms (e : Expr) : e.terms.Nodup := by
  rw [terms, collect_eq_foldl]
  exact nodup_foldl_see e.leaves List.nodup_nil

/-- Every distinct term is counted once. -/
theorem length_terms (e : Expr) : e.terms.length = e.leaves.toFinset.card := by
  rw [← List.toFinset_card_of_nodup e.nodup_terms]
  congr 1
  ext t
  rw [List.mem_toFinset, List.mem_toFinset, mem_terms]

end Expr

/-! ## A larger cap -/

namespace Dnf

section Mono

variable {table : SymbolTable} {cap cap' : Nat}

mutual

/-- What an expression multiplies out to under a cap it also does under any larger one.  The steps
of both runs are the same: a list that fits the cap fits the larger one, and a product that is
empty stops both. -/
theorem distribute_mono (hcap : cap ≤ cap') :
    ∀ (e : Expr) {negated : Bool} {cs : List Conjunction},
      distribute table cap e negated = .ok cs → distribute table cap' e negated = .ok cs
  | .atom t, negated, cs, h => by
    rw [distribute] at h ⊢
    exact h
  | .not e, negated, cs, h => by
    rw [distribute] at h ⊢
    exact distribute_mono hcap e h
  | .and es, negated, cs, h => by
    rw [distribute] at h ⊢
    cases negated with
    | false => exact product_mono hcap es h
    | true => exact sum_mono hcap es h
  | .or es, negated, cs, h => by
    rw [distribute] at h ⊢
    cases negated with
    | false => exact sum_mono hcap es h
    | true => exact product_mono hcap es h

theorem product_mono (hcap : cap ≤ cap') :
    ∀ (es : List Expr) {negated : Bool} {acc cs : List Conjunction},
      product table cap es negated acc = .ok cs → product table cap' es negated acc = .ok cs
  | [], negated, acc, cs, h => by
    rw [product] at h ⊢
    exact h
  | e :: es, negated, acc, cs, h => by
    rw [product] at h ⊢
    cases hf : distribute table cap e negated with
    | error err => simp [hf] at h
    | ok factor =>
      simp only [hf, distribute_mono hcap e hf] at h ⊢
      split at h
      · cases h
      · next hfits =>
        rw [if_neg (by omega)]
        split at h
        · next hempty => rw [if_pos hempty, h]
        · next hsome => rw [if_neg hsome, product_mono hcap es h]

theorem sum_mono (hcap : cap ≤ cap') :
    ∀ (es : List Expr) {negated : Bool} {acc cs : List Conjunction},
      sum table cap es negated acc = .ok cs → sum table cap' es negated acc = .ok cs
  | [], negated, acc, cs, h => by
    rw [sum] at h ⊢
    exact h
  | e :: es, negated, acc, cs, h => by
    rw [sum] at h ⊢
    cases hf : distribute table cap e negated with
    | error err => simp [hf] at h
    | ok ds =>
      simp only [hf, distribute_mono hcap e hf] at h ⊢
      split at h
      · cases h
      · next hfits => rw [if_neg (by omega), sum_mono hcap es h]

end

end Mono

/-! ## How multiplying out fails -/

/-- A result, or the complaint that the cap on conjunctions is exceeded. -/
def Capped {α : Type} (cap : Nat) (r : Except Error α) : Prop :=
  (∃ a, r = .ok a) ∨ r = .error (.tooComplex cap)

section Capped

variable {table : SymbolTable} {cap : Nat}

mutual

/-- With a symbol for every term only the cap can be exceeded. -/
theorem capped_distribute : ∀ (e : Expr) (negated : Bool),
    (∀ t ∈ e.leaves, ∃ s, table.symbol? t = some s) → Capped cap (distribute table cap e negated)
  | .atom t, negated, h => by
    obtain ⟨s, hs⟩ := h t (List.mem_singleton_self t)
    rw [distribute, hs]
    exact .inl ⟨_, rfl⟩
  | .not e, negated, h => by
    rw [distribute]
    exact capped_distribute e (!negated) h
  | .and es, negated, h => by
    rw [distribute]
    cases negated with
    | false => exact capped_product es false [.top] h
    | true => exact capped_sum es true [] h
  | .or es, negated, h => by
    rw [distribute]
    cases negated with
    | false => exact capped_sum es false [] h
    | true => exact capped_product es true [.top] h

theorem capped_product : ∀ (es : List Expr) (negated : Bool) (acc : List Conjunction),
    (∀ t ∈ Expr.leavesAll es, ∃ s, table.symbol? t = some s) →
      Capped cap (product table cap es negated acc)
  | [], negated, acc, h => .inl ⟨acc, by rw [product]⟩
  | e :: es, negated, acc, h => by
    obtain ⟨he, hes⟩ := List.forall_mem_append.mp h
    rw [product]
    rcases capped_distribute e negated he with ⟨factor, hf⟩ | hf
    · rw [hf]
      dsimp only
      split
      · exact .inr rfl
      split
      · exact .inl ⟨[], rfl⟩
      · exact capped_product es negated _ hes
    · rw [hf]
      exact .inr rfl

theorem capped_sum : ∀ (es : List Expr) (negated : Bool) (acc : List Conjunction),
    (∀ t ∈ Expr.leavesAll es, ∃ s, table.symbol? t = some s) →
      Capped cap (sum table cap es negated acc)
  | [], negated, acc, h => .inl ⟨acc, by rw [sum]⟩
  | e :: es, negated, acc, h => by
    obtain ⟨he, hes⟩ := List.forall_mem_append.mp h
    rw [sum]
    rcases capped_distribute e negated he with ⟨ds, hf⟩ | hf
    · rw [hf]
      dsimp only
      split
      · exact .inr rfl
      · exact capped_sum es negated _ hes
    · rw [hf]
      exact .inr rfl

end

end Capped

end Dnf

/-! ## Compiling -/

theorem SymbolTable.exists_symbol?_of_mem_leaves {e : Expr} {t : Term} (h : t ∈ e.leaves) :
    ∃ s, (SymbolTable.mk e.terms).symbol? t = some s :=
  Option.isSome_iff_exists.mp (List.isSome_idxOf?.mpr (Expr.mem_terms.mpr h))

/-- The cap on terms comes first; then the expression is multiplied out over the table of all its
terms. -/
theorem compileExpr_eq (limits : Limits) (e : Expr) :
    compileExpr limits e =
      if min limits.maxTerms 64 < e.leaves.toFinset.card then
        .error (.tooManyTerms e.leaves.toFinset.card (min limits.maxTerms 64))
      else (Dnf.ofExpr e ⟨e.terms⟩ limits.maxClauses).map (SymbolTable.decompose ⟨e.terms⟩) := by
  rw [compileExpr, SymbolTable.ofExpr, ← Expr.length_terms]
  by_cases h : min limits.maxTerms 64 < e.terms.length
  · rw [if_pos h]
    simp only [symbolSpace, gt_iff_lt, if_pos h]
  · rw [if_neg h]
    simp only [symbolSpace, gt_iff_lt, if_neg h]

/-- The clauses under some limits are the clauses under any larger ones. -/
theorem compileExpr_mono {l m : Limits} (hterms : l.maxTerms ≤ m.maxTerms)
    (hclauses : l.maxClauses ≤ m.maxClauses) {e : Expr} {cs : List Clause}
    (h : compileExpr l e = .ok cs) : compileExpr m e = .ok cs := by
  rw [compileExpr_eq] at h ⊢
  split at h
  · cases h
  · next hfits =>
    rw [if_neg (by omega)]
    cases hd : Dnf.distribute ⟨e.terms⟩ l.maxClauses e false with
    | error err => simp [Dnf.ofExpr, hd, Except.map] at h
    | ok ds => rwa [Dnf.ofExpr, Dnf.distribute_mono hclauses e hd, ← hd, ← Dnf.ofExpr]

/-- An expression with few enough terms has clauses, or too many of them. -/
theorem capped_compileExpr {limits : Limits} {e : Expr}
    (h : e.leaves.toFinset.card ≤ min limits.maxTerms 64) :
    Dnf.Capped limits.maxClauses (compileExpr limits e) := by
  rw [compileExpr_eq, if_neg (by omega), Dnf.ofExpr]
  have hcapped : Dnf.Capped limits.maxClauses
      (Dnf.distribute ⟨e.terms⟩ limits.maxClauses e false) :=
    Dnf.capped_distribute e false fun t ht => SymbolTable.exists_symbol?_of_mem_leaves ht
  rcases hcapped with ⟨ds, hd⟩ | hd
  · rw [hd]
    exact .inl ⟨_, rfl⟩
  · rw [hd]
    exact .inr rfl

/-- The limits only refuse.  What compiles under some limits compiles to the same clauses under
any larger ones; there are too many terms exactly if the distinct terms are more than the cap and
than a mask has room for; and otherwise there are clauses, or too many of them. -/
theorem compileExpr_guards (e : Expr) :
    (∀ l m : Limits, l.maxTerms ≤ m.maxTerms → l.maxClauses ≤ m.maxClauses →
        ∀ cs, compileExpr l e = .ok cs → compileExpr m e = .ok cs) ∧
      ∀ limits : Limits,
        (∀ found cap, compileExpr limits e = .error (.tooManyTerms found cap) ↔
          min limits.maxTerms 64 < e.leaves.toFinset.card ∧
            found = e.leaves.toFinset.card ∧ cap = min limits.maxTerms 64) ∧
        (e.leaves.toFinset.card ≤ min limits.maxTerms 64 →
          (∃ cs, compileExpr limits e = .ok cs) ∨
            compileExpr limits e = .error (.tooComplex limits.maxClauses)) := by
  refine ⟨fun l m hterms hclauses cs h => compileExpr_mono hterms hclauses h,
    fun limits => ⟨fun found cap => ?_, capped_compileExpr⟩⟩
  by_cases hmany : min limits.maxTerms 64 < e.leaves.toFinset.card
  · rw [compileExpr_eq, if_pos hmany, Except.error.injEq, Error.tooManyTerms.injEq]
    constructor
    · rintro ⟨rfl, rfl⟩
      exact ⟨hmany, rfl, rfl⟩
    · rintro ⟨-, rfl, rfl⟩
      exact ⟨rfl, rfl⟩
  · refine iff_of_false (fun herr => ?_) fun h => hmany h.1
    rcases capped_compileExpr (Nat.not_lt.mp hmany) with ⟨cs, hok⟩ | hcomplex
    · cases herr.symm.trans hok
    · cases herr.symm.trans hcomplex

/-- `(a | b) & (a | ~c)` has three terms and multiplies out to four conjunctions. -/
theorem compileExpr_guards_of_product :
    let a : Expr := .atom (.category "a")
    let e : Expr := .and [.or [a, .atom (.category "b")], .or [a, .not (.atom (.phrase "c"))]]
    let cs : List Clause := [⟨[.category "a"], []⟩, ⟨[.category "b"], [.phrase "c"]⟩]
    compileExpr { maxTerms := 3, maxClauses := 4 } e = .ok cs ∧
      compileExpr { maxTerms := 100, maxClauses := 512 } e = .ok cs ∧
      compileExpr { maxTerms := 2 } e = .error (.tooManyTerms 3 2) ∧
      ((∃ cs, compileExpr { maxTerms := 3, maxClauses := 3 } e = .ok cs) ∨
        compileExpr { maxTerms := 3, maxClauses := 3 } e = .error (.tooComplex 3)) :=
  have h : compileExpr { maxTerms := 3, maxClauses := 4 } _ = .ok _ := rfl
  ⟨h, (compileExpr_guards _).1 _ _ (by decide) (by decide) _ h,
    (((compileExpr_guards _).2 { maxTerms := 2 }).1 3 2).mpr ⟨by decide, rfl, rfl⟩,
    ((compileExpr_guards _).2 { maxTerms := 3, maxClauses := 3 }).2 (by decide)⟩

end PlaceSearch
