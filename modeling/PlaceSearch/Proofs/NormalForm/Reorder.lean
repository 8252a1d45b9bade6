import Mathlib.Data.List.Pairwise
import PlaceSearch.Proofs.NormalForm.Products
import PlaceSearch.Proofs.Query.Terms
import PlaceSearch.Proofs.Sorted

/-!
# Reordering the operands of an expression

Expressions with reordered operands multiply out to the same products.  Absorption then keeps the
same ones, but which two of them are merged is decided by their order, and one merge may rule out
another: of `a & b`, `~a & b` and `~a & ~b` the second can be merged with either of the others.  So
simplification is told here on sets of products, where any two that can be merged may be.  The
clauses of an expression are an end of such steps from its products, whatever the order, and two
orders have the same clauses if all ends are the same.
-/

namespace PlaceSearch

/-! ## Simplifying sets of products -/

/-- The products of a set that no other one of it absorbs. -/
def minimals (S : Set (Finset Literal)) : Set (Finset Literal) :=
  {p | p ∈ S ∧ ∀ q ∈ S, q ⊆ p → q = p}

theorem minimals_minimals (S : Set (Finset Literal)) : minimals (minimals S) = minimals S := by
  ext p
  constructor
  · exact fun h => h.1
  · exact fun h => ⟨h, fun q hq => h.2 q hq.1⟩

/-- The first product is the third with one more literal, and the second with its opposite. -/
def Merges (p q r : Finset Literal) : Prop :=
  ∃ t b, (∀ b', ⟨t, b'⟩ ∉ r) ∧ p = insert ⟨t, b⟩ r ∧ q = insert ⟨t, !b⟩ r

/-- Rounds of absorption and one merge of any two products that allow it, until no two do. -/
inductive Simplifies : Set (Finset Literal) → Set (Finset Literal) → Prop
  | merge {S T : Set (Finset Literal)} {p q r : Finset Literal} :
      p ∈ minimals S → q ∈ minimals S → Merges p q r →
      Simplifies (insert r (minimals S \ {p, q})) T → Simplifies S T
  | done {S : Set (Finset Literal)} :
      (∀ p ∈ minimals S, ∀ q ∈ minimals S, ∀ r, ¬Merges p q r) → Simplifies S (minimals S)

namespace Simplifies

variable {S T : Set (Finset Literal)}

/-- Absorbing beforehand changes nothing. -/
theorem of_minimals (h : Simplifies (minimals S) T) : Simplifies S T := by
  generalize hm : minimals S = M at h
  cases h with
  | merge hp hq hr h =>
    rw [← hm, minimals_minimals] at hp hq h
    exact .merge hp hq hr h
  | done h =>
    subst hm
    rw [minimals_minimals] at h ⊢
    exact .done h

/-- There is one end when nothing can be merged. -/
theorem eq_minimals (h : Simplifies S T)
    (hnone : ∀ p ∈ minimals S, ∀ q ∈ minimals S, ∀ r, ¬Merges p q r) : T = minimals S := by
  cases h with
  | merge hp hq hr _ => exact absurd hr (hnone _ hp _ hq _)
  | done _ => rfl

end Simplifies

/-! ## Merging over symbols -/

namespace SymbolTable

variable {table : SymbolTable} {c d m : Conjunction}

/-- A conjunction is what is left of it without a symbol, and the literal of that symbol. -/
theorem product_eq_insert {v : Nat} {t : Term} {b : Bool} (hv : table.terms[v]? = some t)
    (hsign : ∀ b', (c.mask b').testBit v = (b' == b))
    (hrest : ∀ b' i, (m.mask b').testBit i = ((c.mask b').testBit i && i != v)) :
    table.product c = insert ⟨t, b⟩ (table.product m) := by
  ext ⟨u, b'⟩
  rw [Finset.mem_insert, mem_product, mem_product, Literal.mk.injEq]
  simp only [hrest, Bool.and_eq_true, bne_iff_ne]
  constructor
  · rintro ⟨i, hi, hbit⟩
    by_cases hiv : i = v
    · subst hiv
      rw [hsign, beq_iff_eq] at hbit
      exact .inl ⟨Option.some.inj (hi.symm.trans hv), hbit⟩
    · exact .inr ⟨i, hi, hbit, hiv⟩
  · rintro (⟨rfl, rfl⟩ | ⟨i, hi, hbit, -⟩)
    · exact ⟨v, hv, by rw [hsign, beq_self_eq_true]⟩
    · exact ⟨i, hi, hbit⟩

/-- Merging conjunctions merges their products. -/
theorem merges_of_merge? (hnodup : table.terms.Nodup) (hc : c.Proper table.size)
    (hd : d.Proper table.size) (h : c.merge? d = some m) :
    Merges (table.product c) (table.product d) (table.product m) := by
  obtain ⟨v, hv, hother⟩ := Conjunction.differInSign_of_merge? hc hd h
  obtain ⟨-, rfl⟩ := Conjunction.merge?_eq_some_iff.mp h
  -- each of the two holds one sign of the symbol, and not the other one
  obtain ⟨b, hcv, hdv⟩ : ∃ b, (∀ b', (c.mask b').testBit v = (b' == b)) ∧
      ∀ b', (d.mask b').testBit v = (b' == !b) := by
    rcases hv with ⟨hp, hn⟩ | ⟨hn, hp⟩
    · refine ⟨false, Bool.forall_bool.mpr ⟨hp, hc.consistent v hp⟩,
        Bool.forall_bool.mpr ⟨hd.pos_eq_false hn, hn⟩⟩
    · refine ⟨true, Bool.forall_bool.mpr ⟨hc.pos_eq_false hn, hn⟩,
        Bool.forall_bool.mpr ⟨hp, hd.consistent v hp⟩⟩
  have hmask : ∀ b', (Conjunction.mk (c.pos &&& d.pos) (c.neg &&& d.neg)).mask b' =
      c.mask b' &&& d.mask b' := by
    intro b'
    cases b' <;> rfl
  have hrest : ∀ b' i, i ≠ v → (c.mask b').testBit i = (d.mask b').testBit i := by
    intro b' i hi
    cases b' with
    | false => exact (hother i hi).1
    | true => exact (hother i hi).2
  -- so that what they have in common is each of them without the symbol
  have hleft : ∀ b' i, (c.mask b' &&& d.mask b').testBit i =
      ((c.mask b').testBit i && i != v) := by
    intro b' i
    rw [Nat.testBit_and]
    by_cases hi : i = v
    · subst hi
      rw [hcv, hdv]
      cases b <;> cases b' <;> simp
    · simp [hi, hrest b' i hi]
  have hright : ∀ b' i, (c.mask b' &&& d.mask b').testBit i =
      ((d.mask b').testBit i && i != v) := by
    intro b' i
    rw [hleft]
    by_cases hi : i = v
    · simp [hi]
    · rw [hrest b' i hi]
  have hlt : v < table.terms.length := hc.mask_lt (b := b) (by rw [hcv, beq_self_eq_true])
  have hget := List.getElem?_eq_getElem hlt
  refine ⟨table.terms[v], b, fun b' hmem => ?_,
    product_eq_insert hget hcv fun b' i => by rw [hmask, hleft],
    product_eq_insert hget hdv fun b' i => by rw [hmask, hright]⟩
  rw [mem_product_of_getElem? hnodup hget, hmask, hleft] at hmem
  simp at hmem

/-- Conjunctions differ in the sign of a symbol if their products do in that of a term. -/
theorem differInSign_of_merges {r : Finset Literal} (hnodup : table.terms.Nodup)
    (hc : c.Proper table.size) (hd : d.Proper table.size)
    (h : Merges (table.product c) (table.product d) r) : c.DifferInSign d := by
  obtain ⟨t, b, hr, hpc, hpd⟩ := h
  have htc : ⟨t, b⟩ ∈ table.product c := hpc ▸ Finset.mem_insert_self _ _
  have htd : ⟨t, !b⟩ ∈ table.product d := hpd ▸ Finset.mem_insert_self _ _
  obtain ⟨s, hs, hcs⟩ := mem_product.mp htc
  have hds := (mem_product_of_getElem? hnodup hs _).mp htd
  have hother : ∀ i, i ≠ s → ∀ b', (c.mask b').testBit i = (d.mask b').testBit i := by
    intro i hi b'
    by_cases hlt : i < table.terms.length
    · have hget := List.getElem?_eq_getElem hlt
      have hne : table.terms[i] ≠ t := by
        intro heq
        rw [heq] at hget
        exact hi ((List.getElem?_inj hlt hnodup).mp (hget.trans hs.symm))
      rw [Bool.eq_iff_iff, ← mem_product_of_getElem? hnodup hget b',
        ← mem_product_of_getElem? hnodup hget b', hpc, hpd, Finset.mem_insert, Finset.mem_insert]
      simp [hne]
    · have hfalse : ∀ e : Conjunction, e.Proper table.size → (e.mask b').testBit i = false :=
        fun e he => Bool.eq_false_iff.mpr fun hbit => hlt (he.mask_lt hbit)
      rw [hfalse c hc, hfalse d hd]
  refine ⟨s, ?_, fun i hi => ⟨hother i hi false, hother i hi true⟩⟩
  cases b with
  | false => exact .inl ⟨hcs, hds⟩
  | true => exact .inr ⟨hcs, hds⟩

end SymbolTable

/-! ## Simplifying conjunctions -/

namespace Dnf

theorem not_subsumes_of_mem_absorb_absorb {c d : Conjunction} {cs : List Conjunction}
    (hc : c ∈ absorb [] cs) (hd : d ∈ absorb [] cs) (hne : c ≠ d) : c.subsumes d = false := by
  have : Std.Symm fun c d : Conjunction => c.subsumes d = false ∧ d.subsumes c = false :=
    ⟨fun _ _ h => ⟨h.2, h.1⟩⟩
  exact ((pairwise_absorb [] cs).forall hc hd hne).1

/-- What stays is subsumed by nothing else. -/
theorem mem_absorb_iff {c : Conjunction} {cs : List Conjunction} :
    c ∈ absorb [] cs ↔ c ∈ cs ∧ ∀ d ∈ cs, d.subsumes c = true → d = c := by
  constructor
  · intro hc
    refine ⟨mem_of_mem_absorb hc, fun d hd hdc => ?_⟩
    obtain ⟨e, he, hed⟩ := exists_mem_absorb hd
    have hec := Conjunction.subsumes_trans hed hdc
    obtain rfl : e = c := by
      by_contra hne
      rw [not_subsumes_of_mem_absorb_absorb he hc hne] at hec
      cases hec
    exact Conjunction.subsumes_antisymm hdc hed
  · rintro ⟨hc, hmin⟩
    obtain ⟨front, back, rfl, hfront⟩ := List.eq_append_cons_of_mem hc
    refine mem_absorb_of_not_subsumed (by simp) (fun d hd => Bool.eq_false_iff.mpr fun hdc => ?_)
      fun d hd => hmin d (by simp [hd])
    exact hfront (hmin d (by simp [hd]) hdc ▸ hd)

theorem mergeFirst_perm {cs merged : List Conjunction} (h : mergeFirst cs = some merged) :
    ∃ c d m rest, cs.Perm (c :: d :: rest) ∧ c.merge? d = some m ∧ merged.Perm (m :: rest) := by
  obtain ⟨pre, c, mid, d, post, m, rfl, hm, rfl⟩ := mergeFirst_eq_some h
  refine ⟨c, d, m, pre ++ (mid ++ post), ?_, hm, List.perm_middle⟩
  refine List.perm_middle.trans (.cons c ?_)
  rw [← List.append_assoc, ← List.append_assoc]
  exact List.perm_middle

namespace Lists

variable {table : SymbolTable} {cs merged : List Conjunction} {S : Set (Finset Literal)}

theorem absorb (hnodup : table.terms.Nodup) (h : Lists table cs S) :
    Lists table (absorb [] cs) (minimals S) where
  proper c hc := h.proper c (mem_of_mem_absorb hc)
  products p := by
    constructor
    · rintro ⟨hp, hmin⟩
      obtain ⟨c, hc, rfl⟩ := (h.products p).mp hp
      refine ⟨c, mem_absorb_iff.mpr ⟨hc, fun d hd hdc => ?_⟩, rfl⟩
      have hproper := h.proper d hd
      exact (SymbolTable.product_inj hnodup hproper (h.proper c hc)).mp
        (hmin _ ((h.products _).mpr ⟨d, hd, rfl⟩)
          ((SymbolTable.product_subset_iff hnodup hproper).mpr hdc))
    · rintro ⟨c, hc, rfl⟩
      obtain ⟨hcs, hmin⟩ := mem_absorb_iff.mp hc
      refine ⟨(h.products _).mpr ⟨c, hcs, rfl⟩, fun q hq hsub => ?_⟩
      obtain ⟨d, hd, rfl⟩ := (h.products q).mp hq
      rw [hmin d hd ((SymbolTable.product_subset_iff hnodup (h.proper d hd)).mp hsub)]

/-- A merge takes out the products of the two and puts in what they have in common. -/
theorem mergeFirst (hnodup : table.terms.Nodup) (h : Lists table cs S) (hcs : cs.Nodup)
    (hfirst : mergeFirst cs = some merged) :
    ∃ p ∈ S, ∃ q ∈ S, ∃ r, Merges p q r ∧ Lists table merged (insert r (S \ {p, q})) := by
  obtain ⟨c, d, m, rest, hperm, hm, hmerged⟩ := mergeFirst_perm hfirst
  have hmem : ∀ e, e ∈ cs ↔ e = c ∨ e = d ∨ e ∈ rest := by
    intro e
    rw [hperm.mem_iff, List.mem_cons, List.mem_cons]
  have hc := h.proper c ((hmem c).mpr (.inl rfl))
  have hd := h.proper d ((hmem d).mpr (.inr (.inl rfl)))
  obtain ⟨hcrest, hdrest, -⟩ : c ∉ d :: rest ∧ d ∉ rest ∧ rest.Nodup := by
    simpa only [List.nodup_cons] using hperm.nodup_iff.mp hcs
  refine ⟨table.product c, (h.products _).mpr ⟨c, (hmem c).mpr (.inl rfl), rfl⟩,
    table.product d, (h.products _).mpr ⟨d, (hmem d).mpr (.inr (.inl rfl)), rfl⟩,
    table.product m, SymbolTable.merges_of_merge? hnodup hc hd hm, ?_, fun p => ?_⟩
  · intro e he
    rcases List.mem_cons.mp (hmerged.mem_iff.mp he) with rfl | he
    · exact hc.merge? hm
    · exact h.proper e ((hmem e).mpr (.inr (.inr he)))
  · simp only [hmerged.mem_iff, List.mem_cons, exists_eq_or_imp, Set.mem_insert_iff, Set.mem_sdiff,
      Set.mem_singleton_iff, not_or, eq_comm (a := p) (b := table.product m)]
    refine or_congr_right ⟨?_, ?_⟩
    · rintro ⟨hp, hpc, hpd⟩
      obtain ⟨e, he, rfl⟩ := (h.products p).mp hp
      rcases (hmem e).mp he with rfl | rfl | he
      · exact absurd rfl hpc
      · exact absurd rfl hpd
      · exact ⟨e, he, rfl⟩
    · rintro ⟨e, he, rfl⟩
      have hmeme := (hmem e).mpr (.inr (.inr he))
      have hproper := h.proper e hmeme
      refine ⟨(h.products _).mpr ⟨e, hmeme, rfl⟩, fun heq => ?_, fun heq => ?_⟩
      · obtain rfl := (SymbolTable.product_inj hnodup hproper hc).mp heq
        exact hcrest (List.mem_cons_of_mem d he)
      · obtain rfl := (SymbolTable.product_inj hnodup hproper hd).mp heq
        exact hdrest he

/-- When no conjunctions can be merged no products can. -/
theorem not_merges (hnodup : table.terms.Nodup) (h : Lists table cs S)
    (hnone : Dnf.mergeFirst cs = none) : ∀ p ∈ S, ∀ q ∈ S, ∀ r, ¬Merges p q r := by
  intro p hp q hq r hmerges
  obtain ⟨c, hc, rfl⟩ := (h.products p).mp hp
  obtain ⟨d, hd, rfl⟩ := (h.products q).mp hq
  have hdiffer :=
    SymbolTable.differInSign_of_merges hnodup (h.proper c hc) (h.proper d hd) hmerges
  have hpairwise := pairwise_not_differInSign h.proper hnone
  have : Std.Symm fun c d : Conjunction => ¬c.DifferInSign d :=
    ⟨fun _ _ hnot hdiffer => hnot hdiffer.symm⟩
  exact hpairwise.forall hc hd (hdiffer.ne (h.proper c hc)) hdiffer

/-- The rounds of simplification are steps from the products of the conjunctions to an end. -/
theorem simplifies (hnodup : table.terms.Nodup) {n : Nat} (h : Lists table cs S)
    (hround : Dnf.round (Dnf.round^[n] cs) = Dnf.round^[n] cs) :
    ∃ T, Lists table (Dnf.round^[n] cs) T ∧ Simplifies S T := by
  induction n generalizing cs S with
  | zero =>
    obtain ⟨habsorb, hmerge⟩ := round_eq_self_iff.mp hround
    have hminimals := h.absorb hnodup
    rw [Function.iterate_zero_apply] at habsorb hmerge ⊢
    rw [habsorb] at hminimals
    exact ⟨_, hminimals, .done (hminimals.not_merges hnodup hmerge)⟩
  | succ n ih =>
    rw [Function.iterate_succ_apply] at hround ⊢
    have hminimals := h.absorb hnodup
    cases hmerge : Dnf.mergeFirst (Dnf.absorb [] cs) with
    | none =>
      rw [← round_of_mergeFirst_eq_none hmerge] at hminimals
      obtain ⟨T, hT, hsimplifies⟩ := ih hminimals hround
      exact ⟨T, hT, hsimplifies.of_minimals⟩
    | some merged =>
      obtain ⟨p, hp, q, hq, r, hr, hmerged⟩ :=
        hminimals.mergeFirst hnodup (nodup_absorb [] cs) hmerge
      rw [← round_of_mergeFirst_eq_some hmerge] at hmerged
      obtain ⟨T, hT, hsimplifies⟩ := ih hmerged hround
      exact ⟨T, hT, .merge hp hq hr hsimplifies⟩

end Lists

end Dnf

/-! ## Clauses as products -/

namespace Clause

/-- The products that some clauses stand for. -/
def products (cs : List Clause) : Set (Finset Literal) :=
  {p | ∃ c ∈ cs, c.literals.toFinset = p}

/-- A clause has the literals that it is made of. -/
theorem toFinset_literals_of_ofLiterals? {ls : List Literal} {c : Clause}
    (h : ofLiterals? ls = some c) : c.literals.toFinset = ls.toFinset := by
  simp only [ofLiterals?] at h
  split at h
  · cases h
  · cases h
    have hsign : ∀ t b, (∃ l ∈ ls, l.negated = b ∧ l.term = t) ↔ ⟨t, b⟩ ∈ ls := by
      intro t b
      constructor
      · rintro ⟨l, hl, rfl, rfl⟩
        exact hl
      · exact fun hl => ⟨_, hl, rfl, rfl⟩
    ext ⟨t, b⟩
    rw [List.mem_toFinset, List.mem_toFinset, ← hsign]
    cases b <;> simp [literals, and_assoc]

/-- Literals that do not contradict each other make a clause. -/
theorem exists_ofLiterals?_eq_some {ls : List Literal} (h : Consistent ls.toFinset) :
    ∃ c, ofLiterals? ls = some c := by
  simp only [ofLiterals?]
  split
  · next hboth =>
    simp only [List.any_eq_true, List.contains_iff_mem, Sorted.mem_ofList, List.mem_map,
      List.mem_filter] at hboth
    obtain ⟨t, ⟨l, ⟨hl, hpos⟩, rfl⟩, l', ⟨hl', hneg⟩, heq⟩ := hboth
    obtain ⟨t, b⟩ := l
    obtain ⟨t', b'⟩ := l'
    obtain rfl : b = false := by simpa using hpos
    obtain rfl : b' = true := by simpa using hneg
    obtain rfl : t' = t := heq
    exact absurd (List.mem_toFinset.mpr hl') (h t' (List.mem_toFinset.mpr hl))
  · exact ⟨_, rfl⟩

/-- Clauses are told apart by their literals: both lists of terms are sorted. -/
theorem ofLiterals?_congr {ls ls' : List Literal} (h : ls.toFinset = ls'.toFinset) :
    ofLiterals? ls = ofLiterals? ls' := by
  have hmem : ∀ l, l ∈ ls ↔ l ∈ ls' := by
    intro l
    rw [← List.mem_toFinset, h, List.mem_toFinset]
  have hsort : ∀ f : Literal → Bool, Sorted.ofList ((ls.filter f).map (·.term)) =
      Sorted.ofList ((ls'.filter f).map (·.term)) := by
    intro f
    rw [Sorted.ofList_eq_iff]
    intro t
    simp only [List.mem_map, List.mem_filter, hmem]
  rw [ofLiterals?, ofLiterals?, hsort, hsort]

/-- Clauses made of literals are found by their products. -/
theorem mem_of_products_subset {cs cs' : List Clause}
    (hcs : ∀ c ∈ cs, ∃ ls, ofLiterals? ls = some c)
    (hcs' : ∀ c ∈ cs', ∃ ls, ofLiterals? ls = some c) (h : products cs ⊆ products cs')
    {c : Clause} (hc : c ∈ cs) : c ∈ cs' := by
  obtain ⟨c', hc', heq⟩ := h ⟨c, hc, rfl⟩
  obtain ⟨ls, hls⟩ := hcs c hc
  obtain ⟨ls', hls'⟩ := hcs' c' hc'
  rw [toFinset_literals_of_ofLiterals? hls, toFinset_literals_of_ofLiterals? hls'] at heq
  rw [ofLiterals?_congr heq, hls, Option.some.injEq] at hls'
  exact hls' ▸ hc'

end Clause

namespace SymbolTable

variable {table : SymbolTable} {ds : List Conjunction} {T : Set (Finset Literal)}

/-- Going back from symbols to terms keeps the products. -/
theorem products_decompose (hnodup : table.terms.Nodup) (h : Dnf.Lists table ds T) :
    Clause.products (table.decompose ds) = T := by
  ext p
  rw [h.products]
  constructor
  · rintro ⟨c, hc, rfl⟩
    obtain ⟨d, hd, hclause⟩ := List.mem_filterMap.mp hc
    exact ⟨d, hd, (Clause.toFinset_literals_of_ofLiterals? hclause).symm⟩
  · rintro ⟨d, hd, rfl⟩
    have hconsistent := h.consistent hnodup _ ((h.products _).mpr ⟨d, hd, rfl⟩)
    obtain ⟨c, hclause⟩ := Clause.exists_ofLiterals?_eq_some hconsistent
    exact ⟨c, List.mem_filterMap.mpr ⟨d, hd, hclause⟩,
      Clause.toFinset_literals_of_ofLiterals? hclause⟩

end SymbolTable

/-! ## The clauses of an expression -/

/-- The clauses of an expression are an end of simplification from its products. -/
theorem compileExpr_simplifies {limits : Limits} {e : Expr} {cs : List Clause}
    (h : compileExpr limits e = .ok cs) : Simplifies (e.products false) (Clause.products cs) := by
  obtain ⟨ds, hds, rfl⟩ := compileExpr_eq_ok h
  obtain ⟨factors, hfactors, rfl⟩ := Dnf.ofExpr_eq_ok hds
  obtain ⟨n, -, hiterate, hround⟩ := Dnf.exists_iterate_round_simplify factors
  rw [← hiterate] at hround ⊢
  have hnodup : (SymbolTable.mk e.terms).terms.Nodup := e.nodup_terms
  obtain ⟨T, hT, hsimplifies⟩ := (Dnf.distribute_lists hnodup e hfactors).simplifies hnodup hround
  rwa [SymbolTable.products_decompose hnodup hT]

theorem exists_ofLiterals?_of_mem_compileExpr {limits : Limits} {e : Expr} {cs : List Clause}
    (h : compileExpr limits e = .ok cs) : ∀ c ∈ cs, ∃ ls, Clause.ofLiterals? ls = some c := by
  obtain ⟨ds, -, rfl⟩ := compileExpr_eq_ok h
  intro c hc
  obtain ⟨d, -, hclause⟩ := List.mem_filterMap.mp hc
  exact ⟨_, hclause⟩

/-! ## Reordering -/

namespace Expr

theorem allProducts_perm {es fs : List Expr} (h : es.Perm fs) (negated : Bool) :
    allProducts es negated = allProducts fs negated := by
  induction h with
  | nil => rfl
  | cons e _ ih => rw [allProducts, allProducts, ih]
  | swap e f es => rw [allProducts, allProducts, join_left_comm, ← allProducts, ← allProducts]
  | trans _ _ ih ih' => rw [ih, ih']

theorem mem_anyProducts {es : List Expr} {negated : Bool} {p : Finset Literal} :
    p ∈ anyProducts es negated ↔ ∃ e ∈ es, p ∈ e.products negated := by
  induction es with
  | nil => simp [anyProducts]
  | cons e es ih => rw [anyProducts, Set.mem_union, ih, List.exists_mem_cons_iff]

theorem anyProducts_perm {es fs : List Expr} (h : es.Perm fs) (negated : Bool) :
    anyProducts es negated = anyProducts fs negated := by
  ext p
  simp only [mem_anyProducts, h.mem_iff]

theorem allProducts_replace {e f : Expr} {negated : Bool}
    (h : e.products negated = f.products negated) (es fs : List Expr) :
    allProducts (es ++ e :: fs) negated = allProducts (es ++ f :: fs) negated := by
  induction es with
  | nil => rw [List.nil_append, List.nil_append, allProducts, allProducts, h]
  | cons e' es ih => rw [List.cons_append, List.cons_append, allProducts, allProducts, ih]

theorem anyProducts_replace {e f : Expr} {negated : Bool}
    (h : e.products negated = f.products negated) (es fs : List Expr) :
    anyProducts (es ++ e :: fs) negated = anyProducts (es ++ f :: fs) negated := by
  ext p
  simp only [mem_anyProducts, List.mem_append, List.mem_cons, or_and_right, exists_or,
    exists_eq_left, h]

end Expr

/-- The operands of conjunctions and disjunctions, at any depth, in another order. -/
inductive Reorders : Expr → Expr → Prop
  | refl (e : Expr) : Reorders e e
  | trans {e f g : Expr} : Reorders e f → Reorders f g → Reorders e g
  | and {es fs : List Expr} : es.Perm fs → Reorders (.and es) (.and fs)
  | or {es fs : List Expr} : es.Perm fs → Reorders (.or es) (.or fs)
  | inNot {e f : Expr} : Reorders e f → Reorders (.not e) (.not f)
  | inAnd {e f : Expr} (es fs : List Expr) :
      Reorders e f → Reorders (.and (es ++ e :: fs)) (.and (es ++ f :: fs))
  | inOr {e f : Expr} (es fs : List Expr) :
      Reorders e f → Reorders (.or (es ++ e :: fs)) (.or (es ++ f :: fs))

namespace Reorders

variable {e f : Expr}

/-- Expressions with reordered operands have the same products. -/
theorem products_eq (h : Reorders e f) (negated : Bool) :
    e.products negated = f.products negated := by
  induction h generalizing negated with
  | refl => rfl
  | trans _ _ ih ih' => rw [ih, ih']
  | and hperm => rw [Expr.products, Expr.products, Expr.allProducts_perm hperm,
      Expr.anyProducts_perm hperm]
  | or hperm => rw [Expr.products, Expr.products, Expr.allProducts_perm hperm,
      Expr.anyProducts_perm hperm]
  | inNot _ ih => rw [Expr.products, Expr.products, ih]
  | inAnd es fs _ ih => rw [Expr.products, Expr.products, Expr.allProducts_replace (ih negated),
      Expr.anyProducts_replace (ih negated)]
  | inOr es fs _ ih => rw [Expr.products, Expr.products, Expr.allProducts_replace (ih negated),
      Expr.anyProducts_replace (ih negated)]

/-- Expressions with reordered operands say the same. -/
theorem eval_eq (h : Reorders e f) (holds : Term → Bool) : e.eval holds = f.eval holds := by
  induction h with
  | refl => rfl
  | trans _ _ ih ih' => rw [ih, ih']
  | and hperm => rw [Expr.eval, Expr.eval, Dnf.evalAll_eq_all, Dnf.evalAll_eq_all, hperm.all_eq]
  | or hperm => rw [Expr.eval, Expr.eval, Dnf.evalAny_eq_any, Dnf.evalAny_eq_any, hperm.any_eq]
  | inNot _ ih => rw [Expr.eval, Expr.eval, ih]
  | inAnd es fs _ ih =>
    simp only [Expr.eval, Dnf.evalAll_eq_all, List.all_append, List.all_cons, ih]
  | inOr es fs _ ih =>
    simp only [Expr.eval, Dnf.evalAny_eq_any, List.any_append, List.any_cons, ih]

end Reorders

/-- The clauses of two expressions that differ in the order of their operands come from the same
products, by absorption and by merges that may have been chosen differently.  So they are the same
clauses if the choice does not matter, and in particular if nothing can be merged; and in any case
they say the same. -/
theorem compileExpr_reorders {e f : Expr} (h : Reorders e f) {limits limits' : Limits}
    {cs cs' : List Clause} (hcs : compileExpr limits e = .ok cs)
    (hcs' : compileExpr limits' f = .ok cs') :
    Simplifies (e.products false) (Clause.products cs) ∧
      Simplifies (e.products false) (Clause.products cs') ∧
      ((∀ T T', Simplifies (e.products false) T → Simplifies (e.products false) T' → T = T') →
        ∀ c, c ∈ cs ↔ c ∈ cs') ∧
      ((∀ p ∈ minimals (e.products false), ∀ q ∈ minimals (e.products false),
        ∀ r, ¬Merges p q r) → ∀ c, c ∈ cs ↔ c ∈ cs') ∧
      ∀ holds, Clause.evalAny holds cs = Clause.evalAny holds cs' := by
  have hend := compileExpr_simplifies hcs
  have hend' := compileExpr_simplifies hcs'
  rw [← h.products_eq] at hend'
  have hmem := exists_ofLiterals?_of_mem_compileExpr hcs
  have hmem' := exists_ofLiterals?_of_mem_compileExpr hcs'
  have hsame : Clause.products cs = Clause.products cs' → ∀ c, c ∈ cs ↔ c ∈ cs' := fun heq c =>
    ⟨Clause.mem_of_products_subset hmem hmem' heq.subset,
      Clause.mem_of_products_subset hmem' hmem heq.superset⟩
  refine ⟨hend, hend', fun hunique => hsame (hunique _ _ hend hend'),
    fun hnone => hsame ?_, fun holds => ?_⟩
  · rw [hend.eq_minimals hnone, hend'.eq_minimals hnone]
  · rw [evalAny_compileExpr hcs, evalAny_compileExpr hcs', h.eval_eq]

/-- `a & b | ~a & b | ~a & ~b` becomes `b | ~a & ~b`, and with its operands the other way round it
becomes `~a | a & b`. -/
theorem compileExpr_reorders_of_overlap :
    let a : Expr := .atom (.category "a")
    let b : Expr := .atom (.category "b")
    let es : List Expr := [.and [a, b], .and [.not a, b], .and [.not a, .not b]]
    let e : Expr := .or es
    let cs : List Clause := [⟨[.category "b"], []⟩, ⟨[], [.category "a", .category "b"]⟩]
    let cs' : List Clause := [⟨[], [.category "a"]⟩, ⟨[.category "a", .category "b"], []⟩]
    Reorders e (.or es.reverse) ∧ compileExpr {} e = .ok cs ∧
      compileExpr {} (.or es.reverse) = .ok cs' ∧ (¬∀ c, c ∈ cs ↔ c ∈ cs') ∧
      (Simplifies (e.products false) (Clause.products cs) ∧
        Simplifies (e.products false) (Clause.products cs') ∧
        ((∀ T T', Simplifies (e.products false) T → Simplifies (e.products false) T' → T = T') →
          ∀ c, c ∈ cs ↔ c ∈ cs') ∧
        ((∀ p ∈ minimals (e.products false), ∀ q ∈ minimals (e.products false),
          ∀ r, ¬Merges p q r) → ∀ c, c ∈ cs ↔ c ∈ cs') ∧
        ∀ holds, Clause.evalAny holds cs = Clause.evalAny holds cs') := by
  intro a b es e cs cs'
  have hreorder : Reorders e (.or es.reverse) := .or (List.reverse_perm es).symm
  have hcs : compileExpr {} e = .ok cs := by decide +kernel
  have hcs' : compileExpr {} (.or es.reverse) = .ok cs' := by decide +kernel
  have hdiffer : ¬∀ c, c ∈ cs ↔ c ∈ cs' := fun h =>
    absurd ((h ⟨[.category "b"], []⟩).mp List.mem_cons_self) (by decide)
  exact ⟨hreorder, hcs, hcs', hdiffer, compileExpr_reorders hreorder hcs hcs'⟩

end PlaceSearch
