import PlaceSearch.Proofs.NormalForm.Dnf

/-!
# Truth of a simplified disjunction

One round of simplification takes out the conjunctions that others absorb and then merges one
pair.  Absorption is safe although absorbed conjunctions may be absorbed by others in turn: a
conjunction that subsumes a different one has less weight, so every chain of absorptions ends
at a conjunction that stays.
-/

namespace PlaceSearch.Dnf

/-! ## Absorption -/

theorem mem_of_mem_absorb {c : Conjunction} {before cs : List Conjunction}
    (h : c ∈ absorb before cs) : c ∈ cs := by
  induction cs generalizing before with
  | nil => simp [absorb] at h
  | cons d cs ih =>
    simp only [absorb] at h
    split at h
    · exact List.mem_cons_of_mem _ (ih h)
    · rcases List.mem_cons.mp h with rfl | h
      · exact List.mem_cons_self
      · exact List.mem_cons_of_mem _ (ih h)

/-- A conjunction stays if nothing in front of it subsumes it, and nothing behind it but an
equal one does. -/
theorem mem_absorb_of_not_subsumed {c : Conjunction} {before front back : List Conjunction}
    (hbefore : ∀ d ∈ before, d.subsumes c = false)
    (hfront : ∀ d ∈ front, d.subsumes c = false)
    (hback : ∀ d ∈ back, d.subsumes c = true → d = c) :
    c ∈ absorb before (front ++ c :: back) := by
  induction front generalizing before with
  | nil =>
    have hany : before.any (·.subsumes c) = false := by simpa using hbefore
    have hlater : (back.any fun d => d.subsumes c && d != c) = false := by
      simpa using hback
    simp [absorb, hany, hlater]
  | cons d front ih =>
    have hd : ∀ e ∈ d :: before, e.subsumes c = false := by
      intro e he
      rcases List.mem_cons.mp he with rfl | he
      · exact hfront e List.mem_cons_self
      · exact hbefore e he
    have hmem := ih hd fun e he => hfront e (List.mem_cons_of_mem _ he)
    simp only [List.cons_append, absorb]
    split
    · exact hmem
    · exact List.mem_cons_of_mem _ hmem

/-- Every conjunction is subsumed by one that stays.  The induction is on the weight: what
absorbs a conjunction at its first place differs from it and weighs less. -/
theorem exists_mem_absorb {c : Conjunction} {cs : List Conjunction} (hc : c ∈ cs) :
    ∃ d ∈ absorb [] cs, d.subsumes c = true := by
  induction hw : c.weight using Nat.strongRecOn generalizing c with
  | ind w ih =>
    obtain ⟨front, back, rfl, hfront⟩ := List.eq_append_cons_of_mem hc
    by_cases h : ∃ d ∈ front ++ back, d.subsumes c = true ∧ d ≠ c
    · obtain ⟨d, hd, hsub, hne⟩ := h
      have hlt : d.weight < w := hw ▸ Conjunction.weight_lt_of_subsumes hsub hne
      have hmem : d ∈ front ++ c :: back := by
        rcases List.mem_append.mp hd with hd | hd
        · exact List.mem_append_left _ hd
        · exact List.mem_append_right _ (List.mem_cons_of_mem _ hd)
      obtain ⟨e, he, hed⟩ := ih d.weight hlt hmem rfl
      exact ⟨e, he, Conjunction.subsumes_trans hed hsub⟩
    · have hstay : ∀ d ∈ front ++ back, d.subsumes c = true → d = c := by
        intro d hd hsub
        exact Decidable.byContradiction fun hne => h ⟨d, hd, hsub, hne⟩
      refine ⟨c, mem_absorb_of_not_subsumed (by simp) ?_ ?_, Conjunction.subsumes_refl c⟩
      · intro d hd
        rw [Bool.eq_false_iff]
        intro hsub
        exact hfront (hstay d (List.mem_append_left _ hd) hsub ▸ hd)
      · exact fun d hd => hstay d (List.mem_append_right _ hd)

theorem Means.absorb {n σ : Nat} {cs : List Conjunction} {b : Bool} (h : Means n σ cs b) :
    Means n σ (absorb [] cs) b where
  proper c hc := h.proper c (mem_of_mem_absorb hc)
  eval := by
    rw [← h.eval, Bool.eq_iff_iff]
    simp only [List.any_eq_true]
    constructor
    · rintro ⟨c, hc, htrue⟩
      exact ⟨c, mem_of_mem_absorb hc, htrue⟩
    · rintro ⟨c, hc, htrue⟩
      obtain ⟨d, hd, hsub⟩ := exists_mem_absorb hc
      exact ⟨d, hd, Conjunction.eval_of_subsumes hsub htrue⟩

/-! ## Merging -/

theorem mergeInto_eq_some {c m : Conjunction} {ds rest : List Conjunction}
    (h : mergeInto c ds = some (m, rest)) :
    ∃ mid d post, ds = mid ++ d :: post ∧ c.merge? d = some m ∧ rest = mid ++ post := by
  induction ds generalizing rest with
  | nil => simp [mergeInto] at h
  | cons d ds ih =>
    simp only [mergeInto] at h
    split at h
    · next m' hm =>
      cases h
      exact ⟨[], d, ds, rfl, hm, rfl⟩
    · obtain ⟨⟨m', rest'⟩, hinto, heq⟩ := Option.map_eq_some_iff.mp h
      cases heq
      obtain ⟨mid, e, post, rfl, hm, rfl⟩ := ih hinto
      exact ⟨d :: mid, e, post, rfl, hm, rfl⟩

/-- The merged conjunction stands at the place of the first of the two; the second is
gone. -/
theorem mergeFirst_eq_some {cs merged : List Conjunction} (h : mergeFirst cs = some merged) :
    ∃ pre c mid d post m, cs = pre ++ c :: (mid ++ d :: post) ∧ c.merge? d = some m ∧
      merged = pre ++ m :: (mid ++ post) := by
  induction cs generalizing merged with
  | nil => simp [mergeFirst] at h
  | cons c cs ih =>
    simp only [mergeFirst] at h
    split at h
    · next m rest hinto =>
      cases h
      obtain ⟨mid, d, post, rfl, hm, rfl⟩ := mergeInto_eq_some hinto
      exact ⟨[], c, mid, d, post, m, rfl, hm, rfl⟩
    · obtain ⟨merged', hfirst, rfl⟩ := Option.map_eq_some_iff.mp h
      obtain ⟨pre, c', mid, d, post, m, rfl, hm, rfl⟩ := ih hfirst
      exact ⟨c :: pre, c', mid, d, post, m, rfl, hm, rfl⟩

theorem Means.mergeFirst {n σ : Nat} {cs merged : List Conjunction} {b : Bool}
    (h : Means n σ cs b) (hfirst : mergeFirst cs = some merged) : Means n σ merged b := by
  obtain ⟨pre, c, mid, d, post, m, rfl, hm, rfl⟩ := mergeFirst_eq_some hfirst
  have hc : c.Proper n := h.proper c (by simp)
  have hd : d.Proper n := h.proper d (by simp)
  constructor
  · intro e he
    simp only [List.mem_append, List.mem_cons] at he
    rcases he with he | rfl | he | he
    · exact h.proper e (by simp [he])
    · exact hc.merge? hm
    · exact h.proper e (by simp [he])
    · exact h.proper e (by simp [he])
  · rw [← h.eval]
    simp only [List.any_append, List.any_cons, Conjunction.eval_merge? hc hd hm]
    ac_rfl

/-! ## Rounds -/

theorem Means.simplifyWithin {n σ : Nat} {b : Bool} (fuel : Nat) {cs : List Conjunction}
    (h : Means n σ cs b) : Means n σ (simplifyWithin fuel cs) b := by
  induction fuel generalizing cs with
  | zero => exact h
  | succ fuel ih =>
    simp only [Dnf.simplifyWithin]
    split
    · next merged hm => exact ih (h.absorb.mergeFirst hm)
    · split
      · exact ih h.absorb
      · exact h.absorb

theorem Means.simplify {n σ : Nat} {cs : List Conjunction} {b : Bool} (h : Means n σ cs b) :
    Means n σ (simplify cs) b :=
  h.simplifyWithin (cs.length + 1)

/-- The normal form of an expression means the same as the expression. -/
theorem ofExpr_means {table : SymbolTable} {cap : Nat} {holds : Term → Bool} {σ : Nat}
    {e : Expr} {cs : List Conjunction} (hσ : Tracks table holds σ)
    (h : ofExpr e table cap = .ok cs) : Means table.size σ cs (e.eval holds) := by
  rw [ofExpr] at h
  cases hd : distribute table cap e false with
  | error err => simp [hd, Except.map] at h
  | ok ds =>
    simp only [hd, Except.map, Except.ok.injEq] at h
    subst h
    simpa using (distribute_means hσ e hd).simplify

end PlaceSearch.Dnf
