import Mathlib.Algebra.GroupWithZero.Nat
import PlaceSearch.Proofs.Call.Coverage

/-!
# One call for each clause, in order

Every clause gets one call and every call belongs to one clause.  The calls come in four groups:
single categories by falling density, single negated categories, the other clauses over
categories, and the clauses that hold a phrase.  A call asks for what its clause includes, and
excludes what its clause does; what it excludes beyond that are single categories that an earlier
call has asked for.

How dense a category is comes from the popularity table and from nothing else.
-/

namespace PlaceSearch

/-! ## Groups -/

/-- The groups of calls, in the order in which they are made. -/
inductive CallGroup where
  | positive
  | negative
  | compound
  | phrase
deriving DecidableEq, Repr

/-- The group of a clause over categories: a single one, a single negated one, or any other. -/
def CallGroup.ofCategories : List Term → List Term → CallGroup
  | [_], [] => .positive
  | [], [_] => .negative
  | _, _ => .compound

namespace Clause

/-- The group of a clause; one that holds a phrase is searched as text. -/
def group (c : Clause) : CallGroup :=
  if c.terms.all (·.kind = .category) then .ofCategories c.included c.excluded else .phrase

theorem kind_eq_category_iff {c : Clause} :
    c.kind = .category ↔ c.terms.all (·.kind = .category) = true := by
  rw [kind]
  cases c.terms with
  | nil => simp
  | cons t ts =>
    cases hk : t.kind with
    | category => simp [hk]
    | phrase =>
      simp only [hk, List.all_cons, reduceCtorEq, decide_false, Bool.false_and,
        Bool.false_eq_true, iff_false]
      split <;> simp

theorem group_of_category {c : Clause} (h : c.kind = .category) :
    c.group = .ofCategories c.included c.excluded :=
  if_pos (kind_eq_category_iff.mp h)

theorem group_of_phrase {c : Clause} (h : c.kind ≠ .category) : c.group = .phrase :=
  if_neg (mt kind_eq_category_iff.mpr h)

/-- The first group holds the clauses that are a single category. -/
theorem group_eq_positive_iff {c : Clause} :
    c.group = .positive ↔ ∃ t, c = ⟨[.category t], []⟩ := by
  constructor
  · intro h
    by_cases hkind : c.kind = .category
    · rw [group_of_category hkind, CallGroup.ofCategories.eq_def] at h
      split at h
      · next u hincluded hexcluded =>
        have hcategory := kind_eq_category_iff.mp hkind
        rw [terms, hincluded, hexcluded] at hcategory
        obtain ⟨kind, text⟩ := u
        obtain rfl : kind = .category := by simpa using hcategory
        exact ⟨text, congr (congrArg Clause.mk hincluded) hexcluded⟩
      · cases h
      · cases h
    · rw [group_of_phrase hkind] at h
      cases h
  · rintro ⟨t, rfl⟩
    rfl

/-- The clause that is a single category. -/
def single (t : String) : Clause :=
  ⟨[.category t], []⟩

/-- The category of a clause that is a single one. -/
def single? : Clause → Option String
  | ⟨[⟨.category, t⟩], []⟩ => some t
  | _ => none

theorem filterMap_map_single (ts : List String) : (ts.map single).filterMap single? = ts := by
  rw [List.filterMap_map]
  exact List.filterMap_some

theorem group_eq_positive_iff_single {c : Clause} :
    c.group = .positive ↔ ∃ t, c.single? = some t ∧ c = single t := by
  rw [group_eq_positive_iff]
  constructor
  · rintro ⟨t, rfl⟩
    exact ⟨t, rfl, rfl⟩
  · rintro ⟨t, -, rfl⟩
    exact ⟨t, rfl⟩

/-- The single categories of some clauses, as clauses again. -/
theorem map_single_filterMap (cs : List Clause) :
    (cs.filterMap single?).map single = cs.filter (·.group = .positive) := by
  induction cs with
  | nil => rfl
  | cons c cs ih =>
    by_cases h : c.group = .positive
    · obtain ⟨t, ht, rfl⟩ := group_eq_positive_iff_single.mp h
      rw [List.filterMap_cons_some ht, List.map_cons, ih, List.filter_cons_of_pos (by simp [h])]
    · have hnone : c.single? = none := by
        cases hs : c.single? with
        | none => rfl
        | some t =>
          unfold single? at hs
          split at hs
          · exact absurd rfl h
          · cases hs
      rw [List.filterMap_cons_none hnone, ih, List.filter_cons_of_neg (by simp [h])]

/-- The second group holds clauses that include nothing. -/
theorem included_of_group_eq_negative {c : Clause} (h : c.group = .negative) :
    c.included = [] := by
  by_cases hkind : c.kind = .category
  · rw [group_of_category hkind, CallGroup.ofCategories.eq_def] at h
    split at h
    · cases h
    · assumption
    · cases h
  · rw [group_of_phrase hkind] at h
    cases h

end Clause

/-! ## Densities -/

/-- How dense a category is: as the table says, and one where it says nothing or there is none. -/
def Popularity.densityOf (popularity : Option Popularity) (t : String) : Float :=
  (popularity.bind (·.densities.get? t)).getD 1.0

namespace Decimal

/-- The total order of floating-point numbers by their bits: those without a sign come after those
with one, and in the order of their bits, while those with a sign come in the opposite order. -/
def AtMost (x y : Float) : Prop :=
  if x.toBits.toNat < 2 ^ 63 then
    y.toBits.toNat < 2 ^ 63 ∧ x.toBits.toNat ≤ y.toBits.toNat
  else y.toBits.toNat < 2 ^ 63 ∨ y.toBits.toNat ≤ x.toBits.toNat

theorem rank_eq (x : Float) :
    rank x = if x.toBits.toNat < 2 ^ 63 then (x.toBits.toNat : Int)
      else -((x.toBits.toNat - 2 ^ 63 : Nat) : Int) - 1 := rfl

theorem rank_le_rank_iff {x y : Float} : rank x ≤ rank y ↔ AtMost x y := by
  rw [rank_eq, rank_eq, AtMost]
  split <;> split <;> omega

theorem rank_eq_rank_iff {x y : Float} : rank x = rank y ↔ x.toBits = y.toBits := by
  rw [← UInt64.toNat_inj, rank_eq, rank_eq]
  split <;> split <;> omega

end Decimal

namespace Optimize

/-- The planner tells the groups apart. -/
theorem group_tests (c : Clause) :
    isPositive c = decide (c.group = .positive) ∧ isNegative c = decide (c.group = .negative) ∧
      isCompound c = decide (c.group = .compound) ∧ hasPhrase c = decide (c.group = .phrase) := by
  by_cases h : c.kind = .category
  · simp only [isPositive, isNegative, isCompound, hasPhrase, Clause.group_of_category h, h,
      Clause.isSimple, Clause.size]
    rcases c.included with _ | ⟨t, _ | ⟨t', ts⟩⟩ <;>
      rcases c.excluded with _ | ⟨u, _ | ⟨u', us⟩⟩ <;>
        simp +arith [CallGroup.ofCategories]
  · simp [isPositive, isNegative, isCompound, hasPhrase, Clause.group_of_phrase h, h]

/-! ## Calls for clauses -/

/-- A call for a clause, made when the clauses `before` have been called for: it asks for what the
clause includes, and of what it excludes beyond its clause it has asked before. -/
structure CallFor (before : List Clause) (c : Clause) (d : CallDescriptor) : Prop where
  kind : d.kind = if c.group = .phrase then .text else .category
  included : d.included = texts c.included
  excluded : ∀ t ∈ texts c.excluded, t ∈ d.excluded
  further : ∀ t ∈ d.excluded, t ∈ texts c.excluded ∨ ⟨[.category t], []⟩ ∈ before
  plain : c.group = .phrase → d.excluded = texts c.excluded

/-- One call for each clause, in the order of the clauses. -/
inductive CallsFor : List Clause → List Clause → List CallDescriptor → Prop
  | nil (before : List Clause) : CallsFor before [] []
  | cons {before cs : List Clause} {c : Clause} {d : CallDescriptor} {ds : List CallDescriptor} :
      CallFor before c d → CallsFor (before ++ [c]) cs ds → CallsFor before (c :: cs) (d :: ds)

variable {before : List Clause}

theorem CallFor.mono {c : Clause} {d : CallDescriptor} (h : CallFor before c d)
    {later : List Clause} (hsub : before ⊆ later) : CallFor later c d :=
  { h with further := fun t ht => (h.further t ht).imp_right fun hmem => hsub hmem }

namespace CallsFor

theorem append {cs cs' : List Clause} {ds ds' : List CallDescriptor} (h : CallsFor before cs ds)
    (h' : CallsFor (before ++ cs) cs' ds') : CallsFor before (cs ++ cs') (ds ++ ds') := by
  induction h with
  | nil before => simpa using h'
  | cons hcall _ ih => exact .cons hcall (ih (by simpa using h'))

/-- Calls of which none relies on another one of them. -/
theorem map {cs : List Clause} {call : Clause → CallDescriptor}
    (h : ∀ c ∈ cs, CallFor before c (call c)) : CallsFor before cs (cs.map call) := by
  induction cs generalizing before with
  | nil => exact .nil before
  | cons c cs ih =>
    obtain ⟨hc, hcs⟩ := List.forall_mem_cons.mp h
    exact .cons hc (ih fun c' hc' => (hcs c' hc').mono (List.subset_append_left before [c]))

end CallsFor

/-! ## The four groups of calls -/

theorem callsFor_positiveCalls {called : List String} {cs : List Clause}
    (hcs : ∀ c ∈ cs, c.group = .positive)
    (hcalled : ∀ t ∈ called, ⟨[.category t], []⟩ ∈ before) :
    CallsFor before cs (positiveCalls called cs) := by
  induction cs generalizing before called with
  | nil => exact .nil before
  | cons c cs ih =>
    obtain ⟨hc, hrest⟩ := List.forall_mem_cons.mp hcs
    obtain ⟨t, rfl⟩ := Clause.group_eq_positive_iff.mp hc
    refine .cons ⟨rfl, rfl, nofun, fun u hu => .inr (hcalled u hu), nofun⟩ (ih hrest fun u hu => ?_)
    rcases List.mem_append.mp hu with hu | hu
    · exact List.mem_append_left _ (hcalled u hu)
    · obtain rfl := List.mem_singleton.mp hu
      exact List.mem_append_right _ (List.mem_singleton_self _)

theorem callFor_negativeCall {called : List String} {c : Clause} (hc : c.group = .negative)
    (hcalled : ∀ t ∈ called, ⟨[.category t], []⟩ ∈ before) :
    CallFor before c (negativeCall called c) where
  kind := by simp [negativeCall, hc]
  included := by rw [Clause.included_of_group_eq_negative hc]; rfl
  excluded t ht := mem_exclude.mpr (.inl ht)
  further t ht := (mem_exclude.mp ht).imp_right fun h => hcalled t h.1
  plain h := by simp [hc] at h

theorem callFor_compoundCall {called : List String} {c : Clause} (hc : c.group = .compound)
    (hcalled : ∀ t ∈ called, ⟨[.category t], []⟩ ∈ before) :
    CallFor before c (compoundCall called c) where
  kind := by simp [compoundCall, hc]
  included := rfl
  excluded t ht := mem_exclude.mpr (.inl ht)
  further t ht := (mem_exclude.mp ht).imp_right fun h => hcalled t h.1
  plain h := by simp [hc] at h

theorem callFor_plainCall {c : Clause} (hc : c.group = .phrase) :
    CallFor before c (plainCall .text c) where
  kind := by simp [plainCall, hc]
  included := rfl
  excluded _ ht := ht
  further _ ht := .inl ht
  plain _ := rfl

/-! ## The order of single categories -/

/-- The place of the density of a clause in the order of densities. -/
def densityRank (popularity : Option Popularity) (c : Clause) : Int :=
  Decimal.rank (density popularity c)

/-- The first clause may stand before the second. -/
def atLeastAsDense (popularity : Option Popularity) (a b : Clause) : Bool :=
  decide (densityRank popularity b ≤ densityRank popularity a)

theorem byDensity_eq (popularity : Option Popularity) (cs : List Clause) :
    byDensity popularity cs = cs.mergeSort (atLeastAsDense popularity) := rfl

theorem atLeastAsDense_iff {popularity : Option Popularity} {a b : Clause} :
    atLeastAsDense popularity a b = true ↔ densityRank popularity b ≤ densityRank popularity a :=
  decide_eq_true_iff

theorem atLeastAsDense_trans (popularity : Option Popularity) (a b c : Clause)
    (hab : atLeastAsDense popularity a b = true) (hbc : atLeastAsDense popularity b c = true) :
    atLeastAsDense popularity a c = true :=
  atLeastAsDense_iff.mpr (Int.le_trans (atLeastAsDense_iff.mp hbc) (atLeastAsDense_iff.mp hab))

theorem atLeastAsDense_total (popularity : Option Popularity) (a b : Clause) :
    (atLeastAsDense popularity a b || atLeastAsDense popularity b a) = true := by
  rw [Bool.or_eq_true, atLeastAsDense_iff, atLeastAsDense_iff]
  exact Int.le_total _ _

theorem pairwise_byDensity (popularity : Option Popularity) (cs : List Clause) :
    (byDensity popularity cs).Pairwise fun a b =>
      densityRank popularity b ≤ densityRank popularity a := by
  rw [byDensity_eq]
  exact (List.pairwise_mergeSort (atLeastAsDense_trans popularity)
    (atLeastAsDense_total popularity) cs).imp atLeastAsDense_iff.mp

/-- Sorting keeps equally dense clauses in order: they are in order where they stand, so that
sorting keeps them a part of the list, and it adds no further ones. -/
theorem filter_byDensity (popularity : Option Popularity) (cs : List Clause) (r : Int) :
    (byDensity popularity cs).filter (densityRank popularity · = r) =
      cs.filter (densityRank popularity · = r) := by
  have hsub : (cs.filter (densityRank popularity · = r)).Sublist (byDensity popularity cs) := by
    rw [byDensity_eq]
    refine List.sublist_mergeSort (atLeastAsDense_trans popularity)
      (atLeastAsDense_total popularity) ?_ List.filter_sublist
    refine List.pairwise_of_forall_mem_list fun a ha b hb => ?_
    have har := of_decide_eq_true (List.mem_filter.mp ha).2
    have hbr := of_decide_eq_true (List.mem_filter.mp hb).2
    exact atLeastAsDense_iff.mpr (Int.le_of_eq (hbr.trans har.symm))
  have hperm : (byDensity popularity cs).Perm cs := List.mergeSort_perm cs _
  have hfilter := hsub.filter (densityRank popularity · = r)
  rw [List.filter_filter] at hfilter
  simp only [Bool.and_self] at hfilter
  exact (hfilter.eq_of_length (hperm.filter _).length_eq.symm).symm

theorem densityRank_single (popularity : Option Popularity) (t : String) :
    densityRank popularity (.single t) = Decimal.rank (Popularity.densityOf popularity t) := by
  cases popularity <;> rfl

/-- The single categories by falling density in the table, equally dense ones in order. -/
theorem exists_byDensity (popularity : Option Popularity) (cs : List Clause) :
    ∃ names : List String,
      byDensity popularity (cs.filter (·.group = .positive)) = names.map Clause.single ∧
      names.Perm (cs.filterMap Clause.single?) ∧
      (names.Pairwise fun a b =>
        Decimal.AtMost (Popularity.densityOf popularity b) (Popularity.densityOf popularity a)) ∧
      ∀ x, names.filter (fun t => (Popularity.densityOf popularity t).toBits = Float.toBits x) =
        (cs.filterMap Clause.single?).filter
          fun t => (Popularity.densityOf popularity t).toBits = Float.toBits x := by
  let names := (byDensity popularity ((cs.filterMap Clause.single?).map Clause.single)).filterMap
    Clause.single?
  have hperm : (byDensity popularity ((cs.filterMap Clause.single?).map Clause.single)).Perm
    ((cs.filterMap Clause.single?).map Clause.single) := List.mergeSort_perm _ _
  have hnames : byDensity popularity ((cs.filterMap Clause.single?).map Clause.single) =
      names.map Clause.single := by
    rw [eq_comm, Clause.map_single_filterMap, List.filter_eq_self]
    intro c hc
    obtain ⟨t, -, rfl⟩ := List.mem_map.mp (hperm.mem_iff.mp hc)
    rfl
  have hfalling := pairwise_byDensity popularity ((cs.filterMap Clause.single?).map Clause.single)
  have hties := filter_byDensity popularity ((cs.filterMap Clause.single?).map Clause.single)
  rw [hnames, List.pairwise_map] at hfalling
  simp only [densityRank_single, Decimal.rank_le_rank_iff] at hfalling
  rw [← Clause.map_single_filterMap]
  refine ⟨names, hnames, ?_, hfalling, fun x => ?_⟩
  · have hsame := hperm.filterMap Clause.single?
    rwa [Clause.filterMap_map_single] at hsame
  · have hmapped := congrArg (List.filterMap Clause.single?) (hties (Decimal.rank x))
    rw [hnames, List.filter_map, List.filter_map, Clause.filterMap_map_single,
      Clause.filterMap_map_single] at hmapped
    simpa only [Function.comp_def, densityRank_single, Decimal.rank_eq_rank_iff] using hmapped

end Optimize

open Optimize

/-- The groups together are all clauses. -/
theorem perm_groups (cs : List Clause) :
    (cs.filter (·.group = .positive) ++ cs.filter (·.group = .negative) ++
      cs.filter (·.group = .compound) ++ cs.filter (·.group = .phrase)).Perm cs := by
  rw [List.perm_iff_count]
  intro c
  simp only [List.count_append]
  have hcount : ∀ g : CallGroup, (cs.filter (·.group = g)).count c =
      if c.group = g then cs.count c else 0 := by
    intro g
    split
    · next h => exact List.count_filter (by simpa using h)
    · next h =>
      exact List.count_eq_zero.mpr fun hmem => h (of_decide_eq_true (List.mem_filter.mp hmem).2)
  simp only [hcount]
  cases c.group <;> simp

private theorem mem_group (cs : List Clause) {g : CallGroup} {c : Clause}
    (h : c ∈ cs.filter (·.group = g)) : c.group = g :=
  of_decide_eq_true (List.mem_filter.mp h).2

/-- The calls, with the groups in their own words. -/
theorem optimize_eq (clauses : List Clause) (popularity : Option Popularity) :
    optimize clauses popularity =
      let positives := byDensity popularity (clauses.filter (·.group = .positive))
      let called := positives.flatMap fun c => texts c.included
      positiveCalls [] positives
        ++ (clauses.filter (·.group = .negative)).map (negativeCall called)
        ++ (clauses.filter (·.group = .compound)).map (compoundCall called)
        ++ (clauses.filter (·.group = .phrase)).map (plainCall .text) := by
  simp only [optimize, funext fun c => (group_tests c).1, funext fun c => (group_tests c).2.1,
    funext fun c => (group_tests c).2.2.1, funext fun c => (group_tests c).2.2.2]

/-- Every clause gets exactly one call.  First come the single categories by falling density in the
popularity table, equally dense ones in the order of their clauses; then the single negated
categories, the other clauses over categories and the clauses with a phrase, each group in the order
of its clauses.  A call includes exactly what its clause does and excludes all that its clause does;
anything more that it excludes is a single category that an earlier call has asked for, and a search
for text excludes nothing more.  Densities are compared in the total order of floating-point
numbers. -/
theorem optimize_callsFor (clauses : List Clause) (popularity : Option Popularity) :
    ∃ names : List String,
      names.Perm (clauses.filterMap Clause.single?) ∧
      (names.Pairwise fun a b =>
        Decimal.AtMost (Popularity.densityOf popularity b) (Popularity.densityOf popularity a)) ∧
      (∀ x, names.filter (fun t => (Popularity.densityOf popularity t).toBits = Float.toBits x) =
        (clauses.filterMap Clause.single?).filter
          fun t => (Popularity.densityOf popularity t).toBits = Float.toBits x) ∧
      (names.map Clause.single ++ clauses.filter (·.group = .negative)
        ++ clauses.filter (·.group = .compound) ++ clauses.filter (·.group = .phrase)).Perm
          clauses ∧
      CallsFor [] (names.map Clause.single ++ clauses.filter (·.group = .negative)
        ++ clauses.filter (·.group = .compound) ++ clauses.filter (·.group = .phrase))
        (optimize clauses popularity) := by
  obtain ⟨names, hnames, hperm, hfalling, hties⟩ := exists_byDensity popularity clauses
  have hclauses : (names.map Clause.single).Perm (clauses.filter (·.group = .positive)) :=
    hnames ▸ List.mergeSort_perm _ _
  have hcalled : ∀ t ∈ (names.map Clause.single).flatMap fun c => texts c.included,
      ⟨[.category t], []⟩ ∈ names.map Clause.single := by
    intro t ht
    obtain ⟨c, hc, ht⟩ := List.mem_flatMap.mp ht
    obtain ⟨u, -, rfl⟩ := List.mem_map.mp hc
    obtain rfl := List.mem_singleton.mp ht
    exact hc
  have hpositive : CallsFor [] (names.map Clause.single) (positiveCalls [] _) :=
    callsFor_positiveCalls (fun c hc => mem_group clauses (hclauses.mem_iff.mp hc))
      fun t ht => absurd ht List.not_mem_nil
  have hnegative := hpositive.append <| CallsFor.map fun c hc =>
    callFor_negativeCall (mem_group clauses hc) hcalled
  have hcompound := hnegative.append <| CallsFor.map fun c hc =>
    callFor_compoundCall (mem_group clauses hc) fun t ht =>
      List.mem_append_right [] (List.mem_append_left _ (hcalled t ht))
  have hphrase := hcompound.append <| CallsFor.map fun c hc =>
    callFor_plainCall (mem_group clauses hc)
  refine ⟨names, hperm, hfalling, hties, .trans ?_ (perm_groups clauses), ?_⟩
  · exact ((hclauses.append_right _).append_right _).append_right _
  rw [optimize_eq, hnames]
  exact hphrase

end PlaceSearch
