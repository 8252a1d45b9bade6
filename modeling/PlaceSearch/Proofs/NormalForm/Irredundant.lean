import Mathlib.Logic.Function.Iterate
import PlaceSearch.Proofs.NormalForm.Compile

/-!
# The end of simplification

Simplification is done in rounds: absorption, and then one merge if there is one.  A round that
changes something takes out a conjunction, so that the rounds come to an end after at most as many
of them as there were conjunctions.  At the end nothing is absorbed and nothing can be merged.
Since absorption may bring two conjunctions together that can be merged and a merge may absorb
others, both are read off one and the same last round.
-/

namespace PlaceSearch

namespace Conjunction

theorem subsumes_antisymm {c d : Conjunction} (hcd : c.subsumes d = true)
    (hdc : d.subsumes c = true) : c = d := by
  by_contra hne
  have hlt := weight_lt_of_subsumes hcd hne
  have hgt := weight_lt_of_subsumes hdc (Ne.symm hne)
  omega

@[simp] theorem top_subsumes (c : Conjunction) : top.subsumes c = true := by
  simp [subsumes_iff, top]

/-- One symbol occurs in both conjunctions, with opposite signs, and they are equal otherwise. -/
def DifferInSign (c d : Conjunction) : Prop :=
  ∃ s, (c.pos.testBit s = true ∧ d.neg.testBit s = true ∨
      c.neg.testBit s = true ∧ d.pos.testBit s = true) ∧
    ∀ i, i ≠ s → c.pos.testBit i = d.pos.testBit i ∧ c.neg.testBit i = d.neg.testBit i

theorem DifferInSign.symm {c d : Conjunction} (h : c.DifferInSign d) : d.DifferInSign c := by
  obtain ⟨s, hs, hother⟩ := h
  refine ⟨s, hs.symm.imp And.symm And.symm, fun i hi => ?_⟩
  exact ⟨(hother i hi).1.symm, (hother i hi).2.symm⟩

/-- A conjunction without contradiction does not differ from itself. -/
theorem DifferInSign.ne {n : Nat} {c d : Conjunction} (h : c.DifferInSign d) (hc : c.Proper n) :
    c ≠ d := by
  rintro rfl
  obtain ⟨s, ⟨hp, hn⟩ | ⟨hn, hp⟩, -⟩ := h
  · rw [hc.consistent s hp] at hn
    cases hn
  · rw [hc.consistent s hp] at hn
    cases hn

/-- Masks that differ in one bit only. -/
theorem xor_eq_bit {a b s : Nat} (hs : a.testBit s = !b.testBit s)
    (h : ∀ i, i ≠ s → a.testBit i = b.testBit i) : a ^^^ b = bit s := by
  apply Nat.eq_of_testBit_eq
  intro i
  rw [Nat.testBit_xor, testBit_bit]
  by_cases hi : i = s
  · subst hi
    cases hb : b.testBit i <;> simp [hs, hb]
  · simp [h i hi, Ne.symm hi]

theorem Proper.pos_eq_false {n s : Nat} {c : Conjunction} (hc : c.Proper n)
    (h : c.neg.testBit s = true) : c.pos.testBit s = false := by
  rw [Bool.eq_false_iff]
  intro hp
  rw [hc.consistent s hp] at h
  cases h

/-- Conjunctions without contradiction that can be merged differ in the sign of a symbol. -/
theorem differInSign_of_merge? {n : Nat} {c d m : Conjunction} (hc : c.Proper n)
    (hd : d.Proper n) (h : c.merge? d = some m) : c.DifferInSign d := by
  obtain ⟨⟨v, hp, hn⟩, -⟩ := merge?_eq_some_iff.mp h
  have hpos : ∀ i, (c.pos.testBit i ^^ d.pos.testBit i) = decide (v = i) := by
    intro i; rw [← Nat.testBit_xor, hp, testBit_bit]
  have hneg : ∀ i, (c.neg.testBit i ^^ d.neg.testBit i) = decide (v = i) := by
    intro i; rw [← Nat.testBit_xor, hn, testBit_bit]
  refine ⟨v, ?_, fun i hi =>
    ⟨by simpa [Ne.symm hi] using hpos i, by simpa [Ne.symm hi] using hneg i⟩⟩
  have hpv := hpos v
  have hnv := hneg v
  cases hcp : c.pos.testBit v with
  | true =>
    have hcn := hc.consistent v hcp
    exact .inl ⟨rfl, by simpa [hcn] using hnv⟩
  | false =>
    have hdp : d.pos.testBit v = true := by simpa [hcp] using hpv
    have hdn := hd.consistent v hdp
    exact .inr ⟨by simpa [hdn] using hnv, hdp⟩

/-- Conjunctions without contradiction that differ in the sign of a symbol can be merged. -/
theorem DifferInSign.merge?_ne_none {n : Nat} {c d : Conjunction} (h : c.DifferInSign d)
    (hc : c.Proper n) (hd : d.Proper n) : c.merge? d ≠ none := by
  obtain ⟨s, hs, hother⟩ := h
  have hflip : c.pos.testBit s = (!d.pos.testBit s) ∧ c.neg.testBit s = !d.neg.testBit s := by
    rcases hs with ⟨hp, hn⟩ | ⟨hn, hp⟩
    · simp [hp, hn, hc.consistent s hp, hd.pos_eq_false hn]
    · simp [hp, hn, hd.consistent s hp, hc.pos_eq_false hn]
  have hpos := xor_eq_bit hflip.1 fun i hi => (hother i hi).1
  have hneg := xor_eq_bit hflip.2 fun i hi => (hother i hi).2
  rw [merge?_eq_some_iff.mpr ⟨⟨s, hpos, hneg⟩, rfl⟩]
  exact Option.some_ne_none _

end Conjunction

namespace Dnf

/-! ## One round -/

theorem absorb_sublist (before cs : List Conjunction) : (absorb before cs).Sublist cs := by
  induction cs generalizing before with
  | nil => exact List.Sublist.slnil
  | cons c cs ih =>
    simp only [absorb]
    split
    · exact (ih _).cons c
    · exact (ih _).cons_cons c

/-- Nothing in front of a conjunction that stays subsumes it. -/
theorem not_subsumes_of_mem_absorb {c d : Conjunction} {before cs : List Conjunction}
    (hd : d ∈ absorb before cs) (hc : c ∈ before) : c.subsumes d = false := by
  induction cs generalizing before with
  | nil => simp [absorb] at hd
  | cons e cs ih =>
    simp only [absorb] at hd
    split at hd
    · exact ih hd (List.mem_cons_of_mem _ hc)
    · next h =>
      rcases List.mem_cons.mp hd with rfl | hd
      · simp only [Bool.or_eq_true, List.any_eq_true, not_or, not_exists, not_and,
          Bool.not_eq_true] at h
        exact h.1 c hc
      · exact ih hd (List.mem_cons_of_mem _ hc)

/-- Of the conjunctions that stay none subsumes another.  One behind is kept only if this one does
not subsume it, and would have absorbed this one if it were not equal to it. -/
theorem pairwise_absorb (before cs : List Conjunction) :
    (absorb before cs).Pairwise fun c d => c.subsumes d = false ∧ d.subsumes c = false := by
  induction cs generalizing before with
  | nil => exact .nil
  | cons c cs ih =>
    simp only [absorb]
    split
    · exact ih _
    · next h =>
      refine List.pairwise_cons.mpr ⟨fun d hd => ?_, ih _⟩
      have hcd : c.subsumes d = false := not_subsumes_of_mem_absorb hd List.mem_cons_self
      refine ⟨hcd, Bool.eq_false_iff.mpr fun hdc => ?_⟩
      have hmem : d ∈ cs := mem_of_mem_absorb hd
      have hne : d ≠ c := by
        rintro rfl
        simp at hcd
      exact h (Bool.or_eq_true _ _ ▸ .inr (List.any_eq_true.mpr ⟨d, hmem, by simp [hdc, hne]⟩))

/-- Conjunctions that do not subsume each other are different: each subsumes itself. -/
theorem nodup_of_not_subsumes {cs : List Conjunction}
    (h : cs.Pairwise fun c d => c.subsumes d = false ∧ d.subsumes c = false) : cs.Nodup := by
  refine h.imp ?_
  rintro c d ⟨hcd, -⟩ rfl
  simp at hcd

theorem nodup_absorb (before cs : List Conjunction) : (absorb before cs).Nodup :=
  nodup_of_not_subsumes (pairwise_absorb before cs)

theorem mergeInto_eq_none_iff {c : Conjunction} {ds : List Conjunction} :
    mergeInto c ds = none ↔ ∀ d ∈ ds, c.merge? d = none := by
  induction ds with
  | nil => simp [mergeInto]
  | cons d ds ih =>
    simp only [mergeInto, List.forall_mem_cons]
    cases hm : c.merge? d with
    | some m => simp
    | none => simp [ih]

/-- Nothing is merged exactly if no two conjunctions can be. -/
theorem mergeFirst_eq_none_iff {cs : List Conjunction} :
    mergeFirst cs = none ↔ cs.Pairwise fun c d => c.merge? d = none := by
  induction cs with
  | nil => simp [mergeFirst]
  | cons c cs ih =>
    rw [List.pairwise_cons, ← mergeInto_eq_none_iff, ← ih]
    simp only [mergeFirst]
    cases hm : mergeInto c cs with
    | some m => simp
    | none => simp

theorem pairwise_not_differInSign {n : Nat} {cs : List Conjunction}
    (hproper : ∀ c ∈ cs, c.Proper n) (h : mergeFirst cs = none) :
    cs.Pairwise fun c d => ¬c.DifferInSign d := by
  refine (mergeFirst_eq_none_iff.mp h).imp_of_mem ?_
  intro c d hc hd hnone hdiffer
  exact hdiffer.merge?_ne_none (hproper c hc) (hproper d hd) hnone

theorem length_mergeFirst {cs merged : List Conjunction} (h : mergeFirst cs = some merged) :
    merged.length + 1 = cs.length := by
  obtain ⟨pre, c, mid, d, post, m, rfl, -, rfl⟩ := mergeFirst_eq_some h
  simp only [List.length_append, List.length_cons]
  omega

/-- One round: absorption, and then one merge if there is one. -/
def round (cs : List Conjunction) : List Conjunction :=
  (mergeFirst (absorb [] cs)).getD (absorb [] cs)

theorem round_of_mergeFirst_eq_some {cs merged : List Conjunction}
    (h : mergeFirst (absorb [] cs) = some merged) : round cs = merged := by
  rw [round, h, Option.getD_some]

theorem round_of_mergeFirst_eq_none {cs : List Conjunction}
    (h : mergeFirst (absorb [] cs) = none) : round cs = absorb [] cs := by
  rw [round, h, Option.getD_none]

/-- A merge takes out a conjunction. -/
theorem length_round_lt {cs merged : List Conjunction}
    (h : mergeFirst (absorb [] cs) = some merged) : (round cs).length < cs.length := by
  have habsorb := (absorb_sublist [] cs).length_le
  have hmerge := length_mergeFirst h
  rw [round_of_mergeFirst_eq_some h]
  omega

theorem length_round_le (cs : List Conjunction) : (round cs).length ≤ cs.length := by
  cases h : mergeFirst (absorb [] cs) with
  | some merged => exact Nat.le_of_lt (length_round_lt h)
  | none =>
    rw [round_of_mergeFirst_eq_none h]
    exact (absorb_sublist [] cs).length_le

/-- A round that takes out nothing has absorbed nothing and merged nothing. -/
theorem absorb_mergeFirst_of_length_le {cs : List Conjunction}
    (hlen : cs.length ≤ (round cs).length) : absorb [] cs = cs ∧ mergeFirst cs = none := by
  cases h : mergeFirst (absorb [] cs) with
  | some merged => exact absurd (length_round_lt h) (Nat.not_lt.mpr hlen)
  | none =>
    rw [round_of_mergeFirst_eq_none h] at hlen
    have habsorb := (absorb_sublist [] cs).eq_of_length_le hlen
    exact ⟨habsorb, habsorb ▸ h⟩

theorem round_eq_self_iff {cs : List Conjunction} :
    round cs = cs ↔ absorb [] cs = cs ∧ mergeFirst cs = none := by
  constructor
  · intro h
    exact absorb_mergeFirst_of_length_le (Nat.le_of_eq (by rw [h]))
  · rintro ⟨habsorb, hmerge⟩
    rw [round, habsorb, hmerge, Option.getD_none]

/-! ## All rounds -/

theorem simplifyWithin_succ (fuel : Nat) (cs : List Conjunction) :
    simplifyWithin (fuel + 1) cs =
      if (round cs).length < cs.length then simplifyWithin fuel (round cs) else round cs := by
  rw [simplifyWithin]
  split
  · next merged h => rw [if_pos (length_round_lt h), round_of_mergeFirst_eq_some h]
  · next h => rw [round_of_mergeFirst_eq_none h]

/-- With more rounds allowed than there are conjunctions, rounds are done until one changes
nothing. -/
theorem exists_iterate_round_simplifyWithin {fuel : Nat} {cs : List Conjunction}
    (h : cs.length < fuel) :
    ∃ n ≤ cs.length, round^[n] cs = simplifyWithin fuel cs ∧
      round (simplifyWithin fuel cs) = simplifyWithin fuel cs := by
  induction fuel generalizing cs with
  | zero => omega
  | succ fuel ih =>
    rw [simplifyWithin_succ]
    split
    · next hlt =>
      have hfuel : (round cs).length < fuel := by omega
      obtain ⟨n, hn, hiterate, hround⟩ := ih hfuel
      exact ⟨n + 1, by omega, hiterate, hround⟩
    · next hnot =>
      have hself : round cs = cs :=
        round_eq_self_iff.mpr (absorb_mergeFirst_of_length_le (by omega))
      exact ⟨0, by omega, hself.symm, by rw [hself, hself]⟩

/-- Simplification ends: it is what rounds come to when one changes nothing, and there are at most
as many rounds before as there are conjunctions. -/
theorem exists_iterate_round_simplify (cs : List Conjunction) :
    ∃ n ≤ cs.length, round^[n] cs = simplify cs ∧ round (simplify cs) = simplify cs :=
  exists_iterate_round_simplifyWithin (Nat.lt_succ_self _)

theorem length_iterate_round_le (n : Nat) (cs : List Conjunction) :
    (round^[n] cs).length ≤ cs.length := by
  induction n generalizing cs with
  | zero => exact Nat.le_refl _
  | succ n ih => exact Nat.le_trans (ih (round cs)) (length_round_le cs)

/-! ## What the last round leaves -/

/-- Proper conjunctions over `n` symbols of which none subsumes another and no two differ only in
the sign of one symbol. -/
structure Irredundant (n : Nat) (cs : List Conjunction) : Prop where
  proper : ∀ c ∈ cs, c.Proper n
  incomparable : cs.Pairwise fun c d => c.subsumes d = false ∧ d.subsumes c = false
  unmergeable : cs.Pairwise fun c d => ¬c.DifferInSign d

namespace Irredundant

variable {n : Nat} {cs : List Conjunction}

theorem nodup (h : Irredundant n cs) : cs.Nodup :=
  nodup_of_not_subsumes h.incomparable

/-- The conjunction without literals stands alone: it subsumes every other one. -/
theorem eq_singleton_top (h : Irredundant n cs) (htop : Conjunction.top ∈ cs) :
    cs = [Conjunction.top] := by
  obtain ⟨front, back, rfl⟩ := List.append_of_mem htop
  obtain ⟨-, hback, hfront⟩ := List.pairwise_append.mp h.incomparable
  have hnil : front = [] := by
    cases front with
    | nil => rfl
    | cons c front =>
      have hsub := (hfront c List.mem_cons_self Conjunction.top List.mem_cons_self).2
      simp at hsub
  cases back with
  | nil => rw [hnil, List.nil_append]
  | cons c back =>
    have hsub := ((List.pairwise_cons.mp hback).1 c List.mem_cons_self).1
    simp at hsub

end Irredundant

theorem irredundant_of_round_eq_self {n : Nat} {cs : List Conjunction}
    (hproper : ∀ c ∈ cs, c.Proper n) (h : round cs = cs) : Irredundant n cs := by
  obtain ⟨habsorb, hmerge⟩ := round_eq_self_iff.mp h
  exact ⟨hproper, habsorb ▸ pairwise_absorb [] cs, pairwise_not_differInSign hproper hmerge⟩

/-! ## The cap -/

section Cap

variable {table : SymbolTable} {cap : Nat}

mutual

/-- No more conjunctions are multiplied out than the cap allows, but for the single one of a term
and of an empty conjunction. -/
theorem length_distribute_le : ∀ (e : Expr) {negated : Bool} {cs : List Conjunction},
    distribute table cap e negated = .ok cs → cs.length ≤ max 1 cap
  | .atom t, negated, cs, h => by
    rw [distribute] at h
    cases hs : table.symbol? t with
    | none => simp [hs] at h
    | some s =>
      simp only [hs, Except.ok.injEq] at h
      subst h
      exact Nat.le_max_left 1 cap
  | .not e, negated, cs, h => by
    rw [distribute] at h
    exact length_distribute_le e h
  | .and es, negated, cs, h => by
    rw [distribute] at h
    split at h
    · exact length_sum_le es h (Nat.zero_le _)
    · exact length_product_le es h (Nat.le_max_left 1 cap)
  | .or es, negated, cs, h => by
    rw [distribute] at h
    split at h
    · exact length_product_le es h (Nat.le_max_left 1 cap)
    · exact length_sum_le es h (Nat.zero_le _)

theorem length_product_le : ∀ (es : List Expr) {negated : Bool} {acc cs : List Conjunction},
    product table cap es negated acc = .ok cs → acc.length ≤ max 1 cap → cs.length ≤ max 1 cap
  | [], negated, acc, cs, h, hacc => by
    rw [product] at h
    cases h
    exact hacc
  | e :: es, negated, acc, cs, h, hacc => by
    rw [product] at h
    cases hf : distribute table cap e negated with
    | error err => simp [hf] at h
    | ok factor =>
      simp only [hf] at h
      split at h
      · cases h
      split at h
      · cases h
        exact Nat.zero_le _
      · exact length_product_le es h (by omega)

theorem length_sum_le : ∀ (es : List Expr) {negated : Bool} {acc cs : List Conjunction},
    sum table cap es negated acc = .ok cs → acc.length ≤ max 1 cap → cs.length ≤ max 1 cap
  | [], negated, acc, cs, h, hacc => by
    rw [sum] at h
    cases h
    exact hacc
  | e :: es, negated, acc, cs, h, hacc => by
    rw [sum] at h
    cases hf : distribute table cap e negated with
    | error err => simp [hf] at h
    | ok ds =>
      simp only [hf] at h
      split at h
      · cases h
      · exact length_sum_le es h (by omega)

end

end Cap

/-! ## The normal form -/

theorem ofExpr_eq_ok {table : SymbolTable} {cap : Nat} {e : Expr} {cs : List Conjunction}
    (h : ofExpr e table cap = .ok cs) :
    ∃ ds, distribute table cap e false = .ok ds ∧ cs = simplify ds := by
  rw [ofExpr] at h
  cases hd : distribute table cap e false with
  | error err => simp [hd, Except.map] at h
  | ok ds =>
    simp only [hd, Except.map, Except.ok.injEq] at h
    exact ⟨ds, rfl, h.symm⟩

/-- Whenever an expression has a normal form, the rounds of simplification that lead to it have
come to an end, and there is nothing left in it to simplify: no symbol outside of the table and
none with both signs, no conjunction that another one subsumes, no two that can be merged, and at
most as many as the cap allows. -/
theorem ofExpr_irredundant {e : Expr} {table : SymbolTable} {maxClauses : Nat}
    {cs : List Conjunction} (h : ofExpr e table maxClauses = .ok cs) :
    (∃ ds, distribute table maxClauses e false = .ok ds ∧
        ∃ n ≤ ds.length, round^[n] ds = cs ∧ round cs = cs) ∧
      Irredundant table.size cs ∧ cs.Nodup ∧ (Conjunction.top ∈ cs → cs = [Conjunction.top]) ∧
        cs.length ≤ max 1 maxClauses := by
  obtain ⟨ds, hds, rfl⟩ := ofExpr_eq_ok h
  obtain ⟨n, hn, hiterate, hround⟩ := exists_iterate_round_simplify ds
  have hmeans := ofExpr_means (SymbolTable.tracks_mask table fun _ => false) h
  have hirredundant := irredundant_of_round_eq_self hmeans.proper hround
  have hlength : (simplify ds).length ≤ max 1 maxClauses := by
    rw [← hiterate]
    exact Nat.le_trans (length_iterate_round_le n ds) (length_distribute_le e hds)
  exact ⟨⟨ds, hds, n, hn, hiterate, hround⟩, hirredundant, hirredundant.nodup,
    hirredundant.eq_singleton_top, hlength⟩

/-- In `a & b | a & ~b | a & c | ~a & d` nothing is absorbed at first; the first two are merged
into `a`, which then absorbs the third. -/
theorem ofExpr_irredundant_of_late_absorption :
    let a : Expr := .atom (.category "a")
    let b : Expr := .atom (.category "b")
    let e : Expr := .or [.and [a, b], .and [a, .not b], .and [a, .atom (.category "c")],
      .and [.not a, .atom (.phrase "d")]]
    let table : SymbolTable := ⟨e.terms⟩
    let cs : List Conjunction := [⟨1, 0⟩, ⟨8, 1⟩]
    ofExpr e table 4 = .ok cs ∧
      (∃ ds, distribute table 4 e false = .ok ds ∧
          ∃ n ≤ ds.length, round^[n] ds = cs ∧ round cs = cs) ∧
        Irredundant table.size cs ∧ cs.Nodup ∧ (Conjunction.top ∈ cs → cs = [Conjunction.top]) ∧
          cs.length ≤ max 1 4 :=
  have h : ofExpr _ _ 4 = .ok _ := rfl
  ⟨h, ofExpr_irredundant h⟩

end Dnf

end PlaceSearch
