import PlaceSearch.NormalForm.Conjunction

/-!
# Truth of conjunctions over symbols

The masks of a conjunction are read bit by bit: a symbol in the first mask has to hold, one
in the second must not.  From this reading follows what meeting, subsuming and merging do to
the truth of a conjunction.  Merging is sound only for conjunctions that hold no symbol with
both signs, which is why `Conjunction.Proper` is carried through the whole normal form.
-/

namespace PlaceSearch.Conjunction

/-! ## Masks as sets of bits -/

@[simp] theorem testBit_bit (s i : Nat) : (bit s).testBit i = decide (s = i) := by
  rw [bit, Nat.one_shiftLeft, Nat.testBit_two_pow]

/-- A mask lies within another one iff its bits do. -/
theorem land_eq_left_iff {a b : Nat} :
    a &&& b = a ↔ ∀ i, a.testBit i = true → b.testBit i = true := by
  constructor
  · intro h i ha
    rw [← h, Nat.testBit_and, Bool.and_eq_true] at ha
    exact ha.2
  · intro h
    apply Nat.eq_of_testBit_eq
    intro i
    cases ha : a.testBit i with
    | false => simp [ha]
    | true => simp [ha, h i ha]

/-- Two masks are disjoint iff no bit is in both. -/
theorem land_eq_zero_iff {a b : Nat} :
    a &&& b = 0 ↔ ∀ i, a.testBit i = true → b.testBit i = false := by
  constructor
  · intro h i ha
    have hi : (a &&& b).testBit i = false := by rw [h, Nat.zero_testBit]
    simpa [ha] using hi
  · intro h
    apply Nat.eq_of_testBit_eq
    intro i
    cases ha : a.testBit i with
    | false => simp [ha]
    | true => simp [h i ha]

/-- A mask that holds exactly one symbol. -/
theorem isSingle_iff {mask : Nat} : isSingle mask = true ↔ ∃ v, mask = bit v := by
  simp only [isSingle, Bool.and_eq_true, bne_iff_ne, beq_iff_eq, bit, Nat.one_shiftLeft]
  constructor
  · rintro ⟨hne, hand⟩
    exact (Nat.and_sub_one_eq_zero_iff_isPowerOfTwo hne).mp hand
  · rintro ⟨v, rfl⟩
    have hne : 2 ^ v ≠ 0 := by simp
    exact ⟨hne, (Nat.and_sub_one_eq_zero_iff_isPowerOfTwo hne).mpr ⟨v, rfl⟩⟩

/-! ## Truth -/

/-- A conjunction is true iff all its positive symbols hold and none of its negative ones
does. -/
theorem eval_eq_true_iff {σ : Nat} {c : Conjunction} :
    c.eval σ = true ↔
      (∀ i, c.pos.testBit i = true → σ.testBit i = true) ∧
        ∀ i, c.neg.testBit i = true → σ.testBit i = false := by
  simp only [eval, Bool.and_eq_true, beq_iff_eq, land_eq_left_iff, land_eq_zero_iff]

theorem isContradiction_eq_false_iff {c : Conjunction} :
    c.isContradiction = false ↔ ∀ i, c.pos.testBit i = true → c.neg.testBit i = false := by
  simp only [isContradiction, bne_eq_false_iff_eq, land_eq_zero_iff]

@[simp] theorem eval_top (σ : Nat) : top.eval σ = true := by
  simp [eval_eq_true_iff, top]

theorem eval_literal (σ s : Nat) (negated : Bool) :
    (literal s negated).eval σ = (σ.testBit s != negated) := by
  rw [Bool.eq_iff_iff, eval_eq_true_iff]
  cases negated <;> simp [literal]

/-- A true conjunction holds no symbol with both signs. -/
theorem isContradiction_of_eval {c : Conjunction} {σ : Nat} (h : c.eval σ = true) :
    c.isContradiction = false := by
  obtain ⟨hpos, hneg⟩ := eval_eq_true_iff.mp h
  rw [isContradiction_eq_false_iff]
  intro i hi
  rw [Bool.eq_false_iff]
  intro hn
  simpa [hpos i hi] using hneg i hn

theorem eval_meet (c d : Conjunction) (σ : Nat) :
    (c.meet d).eval σ = (c.eval σ && d.eval σ) := by
  rw [Bool.eq_iff_iff, Bool.and_eq_true, eval_eq_true_iff, eval_eq_true_iff, eval_eq_true_iff]
  simp only [meet, Nat.testBit_or, Bool.or_eq_true]
  constructor
  · rintro ⟨hp, hn⟩
    exact ⟨⟨fun i h => hp i (.inl h), fun i h => hn i (.inl h)⟩,
      fun i h => hp i (.inr h), fun i h => hn i (.inr h)⟩
  · rintro ⟨⟨hcp, hcn⟩, hdp, hdn⟩
    exact ⟨fun i h => h.elim (hcp i) (hdp i), fun i h => h.elim (hcn i) (hdn i)⟩

/-! ## Subsumption -/

theorem subsumes_iff {c d : Conjunction} :
    c.subsumes d = true ↔
      (∀ i, c.pos.testBit i = true → d.pos.testBit i = true) ∧
        ∀ i, c.neg.testBit i = true → d.neg.testBit i = true := by
  simp only [subsumes, Bool.and_eq_true, beq_iff_eq, land_eq_left_iff]

@[simp] theorem subsumes_refl (c : Conjunction) : c.subsumes c = true := by
  simp [subsumes]

theorem subsumes_trans {c d e : Conjunction} (hcd : c.subsumes d = true)
    (hde : d.subsumes e = true) : c.subsumes e = true := by
  rw [subsumes_iff] at *
  exact ⟨fun i h => hde.1 i (hcd.1 i h), fun i h => hde.2 i (hcd.2 i h)⟩

/-- The conjunction with fewer literals is true wherever the one with more is. -/
theorem eval_of_subsumes {c d : Conjunction} (h : c.subsumes d = true) {σ : Nat}
    (hd : d.eval σ = true) : c.eval σ = true := by
  rw [subsumes_iff] at h
  rw [eval_eq_true_iff] at *
  exact ⟨fun i hi => hd.1 i (h.1 i hi), fun i hi => hd.2 i (h.2 i hi)⟩

/-- A number that grows with the literals of a conjunction. -/
def weight (c : Conjunction) : Nat :=
  c.pos + c.neg

/-- A different conjunction that subsumes this one has less weight. -/
theorem weight_lt_of_subsumes {c d : Conjunction} (h : c.subsumes d = true) (hne : c ≠ d) :
    c.weight < d.weight := by
  simp only [subsumes, Bool.and_eq_true, beq_iff_eq] at h
  have hpos : c.pos ≤ d.pos := by rw [← h.1]; exact Nat.and_le_right
  have hneg : c.neg ≤ d.neg := by rw [← h.2]; exact Nat.and_le_right
  have hdiff : ¬(c.pos = d.pos ∧ c.neg = d.neg) := by
    rintro ⟨hp, hn⟩
    exact hne (by cases c; cases d; simp_all)
  simp only [weight]
  omega

/-! ## The invariant of the normal form -/

/-- No symbol occurs with both signs, and all symbols are among the first `n`. -/
structure Proper (n : Nat) (c : Conjunction) : Prop where
  consistent : ∀ i, c.pos.testBit i = true → c.neg.testBit i = false
  pos_lt : ∀ i, c.pos.testBit i = true → i < n
  neg_lt : ∀ i, c.neg.testBit i = true → i < n

theorem proper_top (n : Nat) : Proper n top := by
  constructor <;> simp [top]

theorem proper_literal {n s : Nat} (h : s < n) (negated : Bool) :
    Proper n (literal s negated) := by
  cases negated <;> constructor <;> simp [literal, h]

/-- The literals of two conjunctions together, unless they contradict each other. -/
theorem Proper.meet {n : Nat} {c d : Conjunction} (hc : Proper n c) (hd : Proper n d)
    (h : (c.meet d).isContradiction = false) : Proper n (c.meet d) where
  consistent := isContradiction_eq_false_iff.mp h
  pos_lt i hi := by
    simp only [Conjunction.meet, Nat.testBit_or, Bool.or_eq_true] at hi
    exact hi.elim (hc.pos_lt i) (hd.pos_lt i)
  neg_lt i hi := by
    simp only [Conjunction.meet, Nat.testBit_or, Bool.or_eq_true] at hi
    exact hi.elim (hc.neg_lt i) (hd.neg_lt i)

/-! ## Merging -/

/-- Two conjunctions are merged when their masks differ in one symbol, the same in both
masks; what they have in common remains. -/
theorem merge?_eq_some_iff {c d m : Conjunction} :
    c.merge? d = some m ↔
      (∃ v, c.pos ^^^ d.pos = bit v ∧ c.neg ^^^ d.neg = bit v) ∧
        m = ⟨c.pos &&& d.pos, c.neg &&& d.neg⟩ := by
  simp only [merge?]
  split
  · next h =>
    rw [Bool.and_eq_true, isSingle_iff, beq_iff_eq] at h
    obtain ⟨⟨v, hp⟩, hn⟩ := h
    constructor
    · rintro ⟨⟩
      exact ⟨⟨v, hp, hn ▸ hp⟩, rfl⟩
    · rintro ⟨-, rfl⟩
      rfl
  · next h =>
    constructor
    · rintro ⟨⟩
    · rintro ⟨⟨v, hp, hn⟩, -⟩
      rw [Bool.and_eq_true, isSingle_iff, beq_iff_eq] at h
      exact absurd ⟨⟨v, hp⟩, hp.trans hn.symm⟩ h

theorem Proper.merge? {n : Nat} {c d m : Conjunction} (hc : Proper n c)
    (h : c.merge? d = some m) : Proper n m := by
  obtain ⟨-, rfl⟩ := merge?_eq_some_iff.mp h
  constructor
  · intro i hi
    simp only [Nat.testBit_and, Bool.and_eq_true] at hi
    simp [hc.consistent i hi.1]
  · intro i hi
    simp only [Nat.testBit_and, Bool.and_eq_true] at hi
    exact hc.pos_lt i hi.1
  · intro i hi
    simp only [Nat.testBit_and, Bool.and_eq_true] at hi
    exact hc.neg_lt i hi.1

/-- What two conjunctions have in common decides the one of them whose literal at the symbol
they differ in is true. -/
private theorem eval_of_common {c d : Conjunction} {σ v : Nat}
    (hpos : ∀ i, i ≠ v → c.pos.testBit i = d.pos.testBit i)
    (hneg : ∀ i, i ≠ v → c.neg.testBit i = d.neg.testBit i)
    (hp : c.pos.testBit v = σ.testBit v) (hn : c.neg.testBit v = !σ.testBit v)
    (h : eval σ ⟨c.pos &&& d.pos, c.neg &&& d.neg⟩ = true) : c.eval σ = true := by
  rw [eval_eq_true_iff] at *
  simp only [Nat.testBit_and, Bool.and_eq_true] at h
  constructor
  · intro i hi
    by_cases hv : i = v
    · rw [hv] at hi ⊢
      rw [← hp, hi]
    · exact h.1 i ⟨hi, hpos i hv ▸ hi⟩
  · intro i hi
    by_cases hv : i = v
    · rw [hv] at hi ⊢
      simpa [hi] using hn.symm
    · exact h.2 i ⟨hi, hneg i hv ▸ hi⟩

/-- `X & v` or `X & ~v` is true iff `X` is.  Were one of the two to hold `v` with both signs,
the other could lack `v` altogether, and `X` would say less than both. -/
theorem eval_merge? {n : Nat} {c d m : Conjunction} (hc : Proper n c) (hd : Proper n d)
    (h : c.merge? d = some m) (σ : Nat) : m.eval σ = (c.eval σ || d.eval σ) := by
  obtain ⟨⟨v, hp, hn⟩, rfl⟩ := merge?_eq_some_iff.mp h
  have hpos : ∀ i, (c.pos.testBit i ^^ d.pos.testBit i) = decide (v = i) := by
    intro i; rw [← Nat.testBit_xor, hp, testBit_bit]
  have hneg : ∀ i, (c.neg.testBit i ^^ d.neg.testBit i) = decide (v = i) := by
    intro i; rw [← Nat.testBit_xor, hn, testBit_bit]
  have hpos' : ∀ i, i ≠ v → c.pos.testBit i = d.pos.testBit i := by
    intro i hi; simpa [Ne.symm hi] using hpos i
  have hneg' : ∀ i, i ≠ v → c.neg.testBit i = d.neg.testBit i := by
    intro i hi; simpa [Ne.symm hi] using hneg i
  rw [Bool.eq_iff_iff, Bool.or_eq_true]
  constructor
  · intro hm
    have hcv := hc.consistent v
    have hdv := hd.consistent v
    have hpv := hpos v
    have hnv := hneg v
    -- exactly one of the two carries the sign of `v` that is true under `σ`
    by_cases hσ : c.pos.testBit v = σ.testBit v
    · refine .inl (eval_of_common hpos' hneg' hσ ?_ hm)
      rw [← hσ]
      revert hcv hdv hpv hnv
      cases c.pos.testBit v <;> cases d.pos.testBit v <;> simp
      all_goals cases c.neg.testBit v <;> cases d.neg.testBit v <;> simp
    · rw [Nat.and_comm c.pos, Nat.and_comm c.neg] at hm
      refine .inr (eval_of_common (fun i hi => (hpos' i hi).symm)
        (fun i hi => (hneg' i hi).symm) ?_ ?_ hm)
      · revert hσ hpv
        cases c.pos.testBit v <;> cases d.pos.testBit v <;> simp
      · revert hcv hdv hpv hnv hσ
        cases c.pos.testBit v <;> cases d.pos.testBit v <;> simp
        all_goals cases c.neg.testBit v <;> cases d.neg.testBit v <;> simp
  · rintro (h | h)
    · refine eval_of_subsumes (subsumes_iff.mpr ?_) h
      simp only [Nat.testBit_and, Bool.and_eq_true]
      exact ⟨fun _ hi => hi.1, fun _ hi => hi.1⟩
    · refine eval_of_subsumes (subsumes_iff.mpr ?_) h
      simp only [Nat.testBit_and, Bool.and_eq_true]
      exact ⟨fun _ hi => hi.2, fun _ hi => hi.2⟩

end PlaceSearch.Conjunction
