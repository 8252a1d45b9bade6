import Mathlib.Data.Finset.Basic
import PlaceSearch.Proofs.NormalForm.Irredundant
import PlaceSearch.Proofs.NormalForm.Limits

/-!
# The products of an expression

A conjunction is a set of literals, here called a product, and what an expression multiplies out
to is a set of products.  Both are defined on the expression alone, without symbols and without an
order.  The lists of conjunctions over symbols that the compiler works with are compared to them by
one predicate: `Lists table cs P` says that the conjunctions `cs` are proper and stand for exactly
the products in `P`.  Every operation of multiplying out has a lemma that says what it does to this
predicate.
-/

namespace PlaceSearch

/-! ## Products -/

/-- No term occurs with both signs. -/
def Consistent (p : Finset Literal) : Prop :=
  ∀ t, ⟨t, false⟩ ∈ p → ⟨t, true⟩ ∉ p

theorem Consistent.subset {p q : Finset Literal} (h : Consistent q) (hsub : p ⊆ q) :
    Consistent p :=
  fun t hpos hneg => h t (hsub hpos) (hsub hneg)

theorem consistent_empty : Consistent ∅ :=
  fun _ h => absurd h (Finset.notMem_empty _)

/-- One product of each set together, unless they contradict each other. -/
def join (P Q : Set (Finset Literal)) : Set (Finset Literal) :=
  {r | Consistent r ∧ ∃ p ∈ P, ∃ q ∈ Q, p ∪ q = r}

theorem join_comm (P Q : Set (Finset Literal)) : join P Q = join Q P := by
  ext r
  constructor
  · rintro ⟨hr, p, hp, q, hq, rfl⟩
    exact ⟨hr, q, hq, p, hp, Finset.union_comm q p⟩
  · rintro ⟨hr, q, hq, p, hp, rfl⟩
    exact ⟨hr, p, hp, q, hq, Finset.union_comm p q⟩

theorem join_assoc (P Q R : Set (Finset Literal)) : join (join P Q) R = join P (join Q R) := by
  ext s
  constructor
  · rintro ⟨hs, _, ⟨-, p, hp, q, hq, rfl⟩, r, hr, rfl⟩
    rw [Finset.union_assoc] at hs ⊢
    exact ⟨hs, p, hp, q ∪ r, ⟨hs.subset Finset.subset_union_right, q, hq, r, hr, rfl⟩, rfl⟩
  · rintro ⟨hs, p, hp, _, ⟨-, q, hq, r, hr, rfl⟩, rfl⟩
    rw [← Finset.union_assoc] at hs ⊢
    exact ⟨hs, p ∪ q, ⟨hs.subset Finset.subset_union_left, p, hp, q, hq, rfl⟩, r, hr, rfl⟩

theorem join_left_comm (P Q R : Set (Finset Literal)) : join P (join Q R) = join Q (join P R) := by
  rw [← join_assoc, join_comm P Q, join_assoc]

theorem join_empty_left (Q : Set (Finset Literal)) : join ∅ Q = ∅ := by
  ext r
  refine iff_of_false ?_ (Set.notMem_empty r)
  rintro ⟨-, p, hp, -⟩
  exact Set.notMem_empty p hp

theorem join_singleton_empty {P : Set (Finset Literal)} (h : ∀ p ∈ P, Consistent p) :
    join P {∅} = P := by
  ext r
  constructor
  · rintro ⟨-, p, hp, _, rfl, rfl⟩
    rwa [Finset.union_empty]
  · intro hr
    exact ⟨h r hr, r, hr, ∅, rfl, Finset.union_empty r⟩

namespace Expr

mutual

/-- The products that an expression, or its negation, multiplies out to: a conjunction and a
negated disjunction have one for each choice from all operands, a disjunction and a negated
conjunction have those of every operand. -/
def products : Expr → Bool → Set (Finset Literal)
  | .atom t, negated => {{⟨t, negated⟩}}
  | .not e, negated => products e (!negated)
  | .and es, negated => if negated then anyProducts es negated else allProducts es negated
  | .or es, negated => if negated then allProducts es negated else anyProducts es negated

/-- The products of one choice from each operand. -/
def allProducts : List Expr → Bool → Set (Finset Literal)
  | [], _ => {∅}
  | e :: es, negated => join (products e negated) (allProducts es negated)

/-- The products of all operands. -/
def anyProducts : List Expr → Bool → Set (Finset Literal)
  | [], _ => ∅
  | e :: es, negated => products e negated ∪ anyProducts es negated

end

theorem consistent_of_mem_allProducts {es : List Expr} {negated : Bool} :
    ∀ p ∈ allProducts es negated, Consistent p := by
  cases es with
  | nil =>
    rintro p rfl
    exact consistent_empty
  | cons e es => exact fun p hp => hp.1

end Expr

/-! ## Conjunctions over symbols as products -/

namespace Conjunction

/-- The symbols of one sign. -/
def mask (c : Conjunction) (negated : Bool) : Nat :=
  if negated then c.neg else c.pos

@[simp] theorem mask_false (c : Conjunction) : c.mask false = c.pos := rfl

@[simp] theorem mask_true (c : Conjunction) : c.mask true = c.neg := rfl

theorem mask_meet (c d : Conjunction) (b : Bool) : (c.meet d).mask b = c.mask b ||| d.mask b := by
  cases b <;> rfl

theorem mask_literal (s : Nat) (negated b : Bool) :
    (literal s negated).mask b = if b = negated then bit s else 0 := by
  cases negated <;> cases b <;> rfl

theorem subsumes_iff_mask {c d : Conjunction} :
    c.subsumes d = true ↔ ∀ b i, (c.mask b).testBit i = true → (d.mask b).testBit i = true := by
  rw [subsumes_iff, Bool.forall_bool]
  rfl

theorem Proper.mask_lt {n i : Nat} {c : Conjunction} (h : c.Proper n) {b : Bool}
    (hi : (c.mask b).testBit i = true) : i < n := by
  cases b with
  | false => exact h.pos_lt i hi
  | true => exact h.neg_lt i hi

end Conjunction

namespace SymbolTable

/-- The product that a conjunction over symbols stands for. -/
def product (table : SymbolTable) (c : Conjunction) : Finset Literal :=
  (table.literals c).toFinset

variable {table : SymbolTable} {c d : Conjunction}

theorem mem_product {l : Literal} :
    l ∈ table.product c ↔
      ∃ s, table.terms[s]? = some l.term ∧ (c.mask l.negated).testBit s = true := by
  rw [product, List.mem_toFinset, mem_literals]
  cases l.negated <;> rfl

/-- A term has one symbol, which decides whether it occurs. -/
theorem mem_product_of_getElem? (hnodup : table.terms.Nodup) {s : Nat} {t : Term}
    (hs : table.terms[s]? = some t) (b : Bool) :
    ⟨t, b⟩ ∈ table.product c ↔ (c.mask b).testBit s = true := by
  rw [mem_product]
  constructor
  · rintro ⟨i, hi, hbit⟩
    have hlt : i < table.terms.length := (List.getElem?_eq_some_iff.mp hi).1
    rwa [(List.getElem?_inj hlt hnodup).mp (hi.trans hs.symm)] at hbit
  · exact fun hbit => ⟨s, hs, hbit⟩

theorem product_subset_iff (hnodup : table.terms.Nodup) (hc : c.Proper table.size) :
    table.product c ⊆ table.product d ↔ c.subsumes d = true := by
  rw [Conjunction.subsumes_iff_mask]
  constructor
  · intro h b i hi
    have hget := List.getElem?_eq_getElem (hc.mask_lt hi)
    exact (mem_product_of_getElem? hnodup hget b).mp
      (h ((mem_product_of_getElem? hnodup hget b).mpr hi))
  · intro h l hl
    obtain ⟨s, hs, hbit⟩ := mem_product.mp hl
    exact mem_product.mpr ⟨s, hs, h _ s hbit⟩

theorem product_inj (hnodup : table.terms.Nodup) (hc : c.Proper table.size)
    (hd : d.Proper table.size) : table.product c = table.product d ↔ c = d := by
  constructor
  · intro h
    exact Conjunction.subsumes_antisymm ((product_subset_iff hnodup hc).mp h.subset)
      ((product_subset_iff hnodup hd).mp h.superset)
  · rintro rfl
    rfl

theorem product_top : table.product .top = ∅ := by
  refine Finset.eq_empty_of_forall_notMem fun l hl => ?_
  obtain ⟨s, -, hbit⟩ := mem_product.mp hl
  cases h : l.negated <;> simp [h, Conjunction.top] at hbit

theorem product_literal {s : Nat} {t : Term} (hs : table.symbol? t = some s) (negated : Bool) :
    table.product (.literal s negated) = {⟨t, negated⟩} := by
  obtain ⟨hlt, hget, -⟩ := List.idxOf?_eq_some_iff.mp hs
  have hterm : table.terms[s]? = some t := (List.getElem?_eq_getElem hlt).trans (congrArg some hget)
  ext ⟨u, b⟩
  rw [mem_product, Finset.mem_singleton, Literal.mk.injEq]
  simp only [Conjunction.mask_literal]
  constructor
  · rintro ⟨i, hi, hbit⟩
    split at hbit
    · next hb =>
      rw [Conjunction.testBit_bit, decide_eq_true_eq] at hbit
      subst hbit
      exact ⟨Option.some.inj (hi.symm.trans hterm), hb⟩
    · simp at hbit
  · rintro ⟨rfl, rfl⟩
    exact ⟨s, hterm, by simp⟩

theorem product_meet : table.product (c.meet d) = table.product c ∪ table.product d := by
  ext l
  simp only [Finset.mem_union, mem_product, Conjunction.mask_meet, Nat.testBit_or, Bool.or_eq_true]
  constructor
  · rintro ⟨s, hs, hbit | hbit⟩
    · exact .inl ⟨s, hs, hbit⟩
    · exact .inr ⟨s, hs, hbit⟩
  · rintro (⟨s, hs, hbit⟩ | ⟨s, hs, hbit⟩)
    · exact ⟨s, hs, .inl hbit⟩
    · exact ⟨s, hs, .inr hbit⟩

/-- A conjunction over the symbols of the table is a contradiction iff its product is. -/
theorem consistent_product_iff (hnodup : table.terms.Nodup)
    (hc : ∀ i, c.pos.testBit i = true → i < table.size) :
    Consistent (table.product c) ↔ c.isContradiction = false := by
  rw [Conjunction.isContradiction_eq_false_iff]
  constructor
  · intro h i hpos
    have hget := List.getElem?_eq_getElem (hc i hpos)
    have hneg := h _ ((mem_product_of_getElem? hnodup hget false).mpr hpos)
    rw [mem_product_of_getElem? hnodup hget true] at hneg
    simpa using hneg
  · intro h t hpos hneg
    obtain ⟨i, hi, hbit⟩ := mem_product.mp hpos
    have hneg := (mem_product_of_getElem? hnodup hi true).mp hneg
    simp only [Conjunction.mask_true, Conjunction.mask_false] at hbit hneg
    rw [h i hbit] at hneg
    cases hneg

end SymbolTable

/-! ## Multiplying out -/

namespace Dnf

/-- Proper conjunctions that stand for exactly the products in `P`. -/
structure Lists (table : SymbolTable) (cs : List Conjunction) (P : Set (Finset Literal)) :
    Prop where
  proper : ∀ c ∈ cs, c.Proper table.size
  products : ∀ p, p ∈ P ↔ ∃ c ∈ cs, table.product c = p

namespace Lists

variable {table : SymbolTable} {cs ds : List Conjunction} {P Q : Set (Finset Literal)}

theorem unique (h : Lists table cs P) (h' : Lists table cs Q) : P = Q :=
  Set.ext fun p => (h.products p).trans (h'.products p).symm

theorem consistent (hnodup : table.terms.Nodup) (h : Lists table cs P) :
    ∀ p ∈ P, Consistent p := by
  intro p hp
  obtain ⟨c, hc, rfl⟩ := (h.products p).mp hp
  have hproper := h.proper c hc
  rw [SymbolTable.consistent_product_iff hnodup hproper.pos_lt,
    Conjunction.isContradiction_eq_false_iff]
  exact hproper.consistent

theorem nil (table : SymbolTable) : Lists table [] ∅ where
  proper := nofun
  products p := by simp

theorem singleton {c : Conjunction} (h : c.Proper table.size) :
    Lists table [c] {table.product c} where
  proper d hd := List.mem_singleton.mp hd ▸ h
  products p := by simp [eq_comm]

theorem top (table : SymbolTable) : Lists table [.top] {∅} := by
  have h : Lists table [.top] {table.product .top} := .singleton (Conjunction.proper_top _)
  rwa [SymbolTable.product_top] at h

theorem combine (hnodup : table.terms.Nodup) (hc : Lists table cs P) (hd : Lists table ds Q) :
    Lists table (combine cs ds) (join P Q) where
  proper e he := by
    obtain ⟨c, hcm, d, hdm, rfl, hcons⟩ := mem_combine.mp he
    exact (hc.proper c hcm).meet (hd.proper d hdm) hcons
  products r := by
    have hconsistent : ∀ c ∈ cs, ∀ d ∈ ds, (Consistent (table.product c ∪ table.product d) ↔
        (c.meet d).isContradiction = false) := by
      intro c hcm d hdm
      rw [← SymbolTable.product_meet]
      refine SymbolTable.consistent_product_iff hnodup fun i hi => ?_
      simp only [Conjunction.meet, Nat.testBit_or, Bool.or_eq_true] at hi
      exact hi.elim ((hc.proper c hcm).pos_lt i) ((hd.proper d hdm).pos_lt i)
    constructor
    · rintro ⟨hr, p, hp, q, hq, rfl⟩
      obtain ⟨c, hcm, rfl⟩ := (hc.products p).mp hp
      obtain ⟨d, hdm, rfl⟩ := (hd.products q).mp hq
      exact ⟨c.meet d, mem_combine.mpr ⟨c, hcm, d, hdm, rfl, (hconsistent c hcm d hdm).mp hr⟩,
        SymbolTable.product_meet⟩
    · rintro ⟨e, he, rfl⟩
      obtain ⟨c, hcm, d, hdm, rfl, hcons⟩ := mem_combine.mp he
      rw [SymbolTable.product_meet]
      exact ⟨(hconsistent c hcm d hdm).mpr hcons, _, (hc.products _).mpr ⟨c, hcm, rfl⟩, _,
        (hd.products _).mpr ⟨d, hdm, rfl⟩, rfl⟩

theorem foldl_adjoin (hc : Lists table cs P) (hd : Lists table ds Q) :
    Lists table (ds.foldl adjoin cs) (P ∪ Q) where
  proper e he := (mem_foldl_adjoin.mp he).elim (hc.proper e) (hd.proper e)
  products p := by
    rw [Set.mem_union, hc.products, hd.products]
    simp only [mem_foldl_adjoin]
    constructor
    · rintro (⟨c, hcm, rfl⟩ | ⟨d, hdm, rfl⟩)
      · exact ⟨c, .inl hcm, rfl⟩
      · exact ⟨d, .inr hdm, rfl⟩
    · rintro ⟨e, he | he, rfl⟩
      · exact .inl ⟨e, he, rfl⟩
      · exact .inr ⟨e, he, rfl⟩

end Lists

section Distribute

variable {table : SymbolTable} {cap : Nat}

mutual

/-- An expression multiplies out to its products, and its negation to those of the negation. -/
theorem distribute_lists (hnodup : table.terms.Nodup) :
    ∀ (e : Expr) {negated : Bool} {cs : List Conjunction},
      distribute table cap e negated = .ok cs → Lists table cs (e.products negated)
  | .atom t, negated, cs, h => by
    rw [distribute] at h
    cases hs : table.symbol? t with
    | none => simp [hs] at h
    | some s =>
      simp only [hs, Except.ok.injEq] at h
      subst h
      have hlt : s < table.size := (List.idxOf?_eq_some_iff.mp hs).1
      rw [Expr.products, ← SymbolTable.product_literal hs]
      exact .singleton (Conjunction.proper_literal hlt negated)
  | .not e, negated, cs, h => by
    rw [distribute] at h
    rw [Expr.products]
    exact distribute_lists hnodup e h
  | .and es, negated, cs, h => by
    rw [distribute] at h
    rw [Expr.products]
    cases negated with
    | false =>
      have hlists := product_lists hnodup es h (.top table)
      rwa [join_comm, join_singleton_empty Expr.consistent_of_mem_allProducts] at hlists
    | true =>
      have hlists := sum_lists hnodup es h (.nil table)
      rwa [Set.empty_union] at hlists
  | .or es, negated, cs, h => by
    rw [distribute] at h
    rw [Expr.products]
    cases negated with
    | false =>
      have hlists := sum_lists hnodup es h (.nil table)
      rwa [Set.empty_union] at hlists
    | true =>
      have hlists := product_lists hnodup es h (.top table)
      rwa [join_comm, join_singleton_empty Expr.consistent_of_mem_allProducts] at hlists

/-- When nothing is left of a product the further operands add nothing to it. -/
theorem product_lists (hnodup : table.terms.Nodup) :
    ∀ (es : List Expr) {negated : Bool} {acc cs : List Conjunction} {P : Set (Finset Literal)},
      product table cap es negated acc = .ok cs → Lists table acc P →
        Lists table cs (join P (Expr.allProducts es negated))
  | [], negated, acc, cs, P, h, hacc => by
    rw [product] at h
    cases h
    rwa [Expr.allProducts, join_singleton_empty (hacc.consistent hnodup)]
  | e :: es, negated, acc, cs, P, h, hacc => by
    rw [product] at h
    rw [Expr.allProducts, ← join_assoc]
    cases hf : distribute table cap e negated with
    | error err => simp [hf] at h
    | ok factor =>
      have hnext := hacc.combine hnodup (distribute_lists hnodup e hf)
      simp only [hf] at h
      split at h
      · cases h
      split at h
      · next hempty =>
        rw [List.isEmpty_iff] at hempty
        cases h
        rw [hempty] at hnext
        rw [hnext.unique (.nil table), join_empty_left]
        exact .nil table
      · exact product_lists hnodup es h hnext

theorem sum_lists (hnodup : table.terms.Nodup) :
    ∀ (es : List Expr) {negated : Bool} {acc cs : List Conjunction} {P : Set (Finset Literal)},
      sum table cap es negated acc = .ok cs → Lists table acc P →
        Lists table cs (P ∪ Expr.anyProducts es negated)
  | [], negated, acc, cs, P, h, hacc => by
    rw [sum] at h
    cases h
    rwa [Expr.anyProducts, Set.union_empty]
  | e :: es, negated, acc, cs, P, h, hacc => by
    rw [sum] at h
    rw [Expr.anyProducts, ← Set.union_assoc]
    cases hf : distribute table cap e negated with
    | error err => simp [hf] at h
    | ok ds =>
      have hnext := hacc.foldl_adjoin (distribute_lists hnodup e hf)
      simp only [hf] at h
      split at h
      · cases h
      · exact sum_lists hnodup es h hnext

end

end Distribute

end Dnf

end PlaceSearch
