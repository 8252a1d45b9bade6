import PlaceSearch.Proofs.Call.Sequence
import PlaceSearch.Proofs.NormalForm.Reorder

/-!
# Calls that exclude what they include

A clause tells a category from a phrase of the same text, and keeps its included terms apart from
its excluded ones.  A call keeps the texts only.  The exclusions that the planner adds to a call
leave out what the call asks for, so that no search by category excludes what it includes; but a
clause that includes a text as one kind of term and excludes it as the other becomes a search for
text with that text on both sides.  These are the only calls that contradict themselves.
-/

namespace PlaceSearch

/-- A text that a call includes and excludes. -/
def CallDescriptor.Clashes (d : CallDescriptor) (t : String) : Prop :=
  t ∈ d.included ∧ t ∈ d.excluded

/-! ## Clauses that are compiled -/

namespace Clause

/-- A clause made of literals has no term on both sides. -/
theorem not_mem_excluded_of_ofLiterals? {ls : List Literal} {c : Clause}
    (h : ofLiterals? ls = some c) {t : Term} (ht : t ∈ c.included) : t ∉ c.excluded := by
  obtain ⟨holds, heval⟩ := exists_eval_of_ofLiterals? h
  simp only [eval, Bool.and_eq_true, List.all_eq_true, Bool.not_eq_true'] at heval
  intro hexcluded
  have htrue := heval.1 t ht
  rw [heval.2 t hexcluded] at htrue
  cases htrue

/-- A text that the clause includes as one kind of term and excludes as the other. -/
def Opposes (c : Clause) (t : String) : Prop :=
  (.category t ∈ c.included ∧ .phrase t ∈ c.excluded) ∨
    (.phrase t ∈ c.included ∧ .category t ∈ c.excluded)

theorem Opposes.phrase_mem {c : Clause} {t : String} (h : c.Opposes t) : .phrase t ∈ c.terms :=
  h.elim (fun h => List.mem_append_right _ h.2) fun h => List.mem_append_left _ h.1

theorem Opposes.category_mem {c : Clause} {t : String} (h : c.Opposes t) :
    .category t ∈ c.terms :=
  h.elim (fun h => List.mem_append_left _ h.1) fun h => List.mem_append_right _ h.2

/-- A clause over categories has no phrase. -/
theorem kind_of_group_ne_phrase {c : Clause} (h : c.group ≠ .phrase) {t : Term}
    (ht : t ∈ c.terms) : t.kind = .category := by
  rw [group] at h
  split at h
  · next hall => exact of_decide_eq_true (List.all_eq_true.mp hall t ht)
  · exact absurd rfl h

/-- A clause that opposes terms of one text is searched as text. -/
theorem Opposes.group_eq {c : Clause} {t : String} (h : c.Opposes t) : c.group = .phrase := by
  by_contra hgroup
  cases kind_of_group_ne_phrase hgroup h.phrase_mem

end Clause

theorem SymbolTable.nodup_decompose {table : SymbolTable} (hnodup : table.terms.Nodup)
    {ds : List Conjunction} (hproper : ∀ d ∈ ds, d.Proper table.size) (hds : ds.Nodup) :
    (table.decompose ds).Nodup := by
  refine List.pairwise_filterMap.mpr (hds.imp_of_mem fun {d d'} hd hd' hne => ?_)
  rintro c hc c' hc' rfl
  have hsame : table.product d = table.product d' :=
    (Clause.toFinset_literals_of_ofLiterals? hc).symm.trans
      (Clause.toFinset_literals_of_ofLiterals? hc')
  exact hne ((product_inj hnodup (hproper d hd) (hproper d' hd')).mp hsame)

/-- No clause of an expression occurs twice: absorption leaves one of equal conjunctions, and
different ones are different clauses. -/
theorem nodup_of_compileExpr {limits : Limits} {e : Expr} {cs : List Clause}
    (h : compileExpr limits e = .ok cs) : cs.Nodup := by
  obtain ⟨ds, hds, rfl⟩ := compileExpr_eq_ok h
  obtain ⟨factors, hfactors, rfl⟩ := Dnf.ofExpr_eq_ok hds
  obtain ⟨n, -, hiterate, hround⟩ := Dnf.exists_iterate_round_simplify factors
  have hnodup : (SymbolTable.mk e.terms).terms.Nodup := e.nodup_terms
  rw [← hiterate] at hround ⊢
  obtain ⟨_, hlists, -⟩ := (Dnf.distribute_lists hnodup e hfactors).simplifies hnodup hround
  exact SymbolTable.nodup_decompose hnodup hlists.proper
    (Dnf.irredundant_of_round_eq_self hlists.proper hround).nodup

/-! ## The groups of calls -/

namespace Optimize

variable {c : Clause} {t : String}

/-- With no term on both sides, a text is on both sides exactly if it is two terms. -/
theorem opposes_iff (hc : ∀ u ∈ c.included, u ∉ c.excluded) :
    c.Opposes t ↔ t ∈ texts c.included ∧ t ∈ texts c.excluded := by
  have htexts : ∀ us : List Term, t ∈ texts us ↔ .category t ∈ us ∨ .phrase t ∈ us := by
    intro us
    rw [texts, List.mem_map]
    constructor
    · rintro ⟨⟨kind, text⟩, hu, rfl⟩
      cases kind with
      | category => exact .inl hu
      | phrase => exact .inr hu
    · rintro (hu | hu)
      · exact ⟨_, hu, rfl⟩
      · exact ⟨_, hu, rfl⟩
  rw [htexts, htexts, Clause.Opposes]
  have hcategory := hc (.category t)
  have hphrase := hc (.phrase t)
  tauto

/-- Single categories that are different exclude each other only. -/
theorem not_clashes_of_mem_positiveCalls {called : List String} {cs : List Clause}
    (hcs : ∀ c ∈ cs, c.group = .positive) (hnodup : cs.Nodup)
    (hcalled : ∀ t ∈ called, ⟨[.category t], []⟩ ∉ cs) {d : CallDescriptor}
    (hd : d ∈ positiveCalls called cs) : ¬d.Clashes t := by
  induction cs generalizing called with
  | nil => cases hd
  | cons c cs ih =>
    obtain ⟨hc, hrest⟩ := List.forall_mem_cons.mp hcs
    obtain ⟨hnot, hrestNodup⟩ := List.nodup_cons.mp hnodup
    obtain ⟨u, rfl⟩ := Clause.group_eq_positive_iff.mp hc
    rcases List.mem_cons.mp hd with rfl | hd
    · rintro ⟨hincluded, hexcluded⟩
      obtain rfl := List.mem_singleton.mp hincluded
      exact hcalled t hexcluded List.mem_cons_self
    · refine ih hrest hrestNodup (fun v hv => ?_) hd
      rcases List.mem_append.mp hv with hv | hv
      · exact fun hmem => hcalled v hv (List.mem_cons_of_mem _ hmem)
      · obtain rfl := List.mem_singleton.mp hv
        exact hnot

/-- The call for a single negated category includes nothing. -/
theorem not_clashes_negativeCall (called : List String) : ¬(negativeCall called c).Clashes t :=
  fun h => absurd h.1 List.not_mem_nil

/-- What the planner adds to the exclusions of a call leaves out what the call asks for. -/
theorem not_clashes_compoundCall (hc : ∀ u ∈ c.included, u ∉ c.excluded)
    (hgroup : c.group ≠ .phrase) (called : List String) :
    ¬(compoundCall called c).Clashes t := by
  rintro ⟨hincluded, hexcluded⟩
  rcases mem_exclude.mp hexcluded with hexcluded | ⟨-, hnot⟩
  · exact hgroup ((opposes_iff hc).mpr ⟨hincluded, hexcluded⟩).group_eq
  · exact hnot hincluded

/-! ## The calls for an expression -/

variable {limits : Limits} {e : Expr} {cs : List Clause} {popularity : Option Popularity}

theorem not_mem_excluded_of_mem_compileExpr (h : compileExpr limits e = .ok cs) (hc : c ∈ cs) :
    ∀ u ∈ c.included, u ∉ c.excluded := by
  obtain ⟨ls, hls⟩ := exists_ofLiterals?_of_mem_compileExpr h c hc
  exact fun u => Clause.not_mem_excluded_of_ofLiterals? hls

/-- The search for the text of a clause has on both sides what the clause opposes. -/
theorem clashes_plainCall_iff (h : compileExpr limits e = .ok cs) (hc : c ∈ cs) :
    (plainCall .text c).Clashes t ↔ c.Opposes t :=
  (opposes_iff (not_mem_excluded_of_mem_compileExpr h hc)).symm

theorem plainCall_mem_optimize (hc : c ∈ cs) (hgroup : c.group = .phrase) :
    plainCall .text c ∈ optimize cs popularity := by
  rw [optimize_eq]
  exact List.mem_append_right _
    (List.mem_map_of_mem (List.mem_filter.mpr ⟨hc, decide_eq_true hgroup⟩))

/-- Only the searches for the text of a clause have a text on both sides. -/
theorem exists_opposes_of_clashes (h : compileExpr limits e = .ok cs) {d : CallDescriptor}
    (hd : d ∈ optimize cs popularity) (ht : d.Clashes t) :
    ∃ c ∈ cs, d = plainCall .text c ∧ c.Opposes t := by
  simp only [optimize_eq, List.mem_append, List.mem_map, List.mem_filter, decide_eq_true_eq] at hd
  rcases hd with ((hd | ⟨c, -, rfl⟩) | ⟨c, ⟨hc, hgroup⟩, rfl⟩) | ⟨c, ⟨hc, -⟩, rfl⟩
  · have hpositives : ∀ c ∈ byDensity popularity (cs.filter (·.group = .positive)),
        c.group = .positive := fun c hc =>
      of_decide_eq_true (List.mem_filter.mp (mem_byDensity.mp hc)).2
    have hnodup : (byDensity popularity (cs.filter (·.group = .positive))).Nodup :=
      (List.mergeSort_perm _ _).nodup_iff.mpr ((nodup_of_compileExpr h).filter _)
    exact absurd ht (not_clashes_of_mem_positiveCalls hpositives hnodup
      (fun _ hmem => absurd hmem List.not_mem_nil) hd)
  · exact absurd ht (not_clashes_negativeCall _)
  · have hapart := not_mem_excluded_of_mem_compileExpr h hc
    exact absurd ht (not_clashes_compoundCall hapart (by simp [hgroup]) _)
  · exact ⟨c, hc, rfl, (clashes_plainCall_iff h hc).mp ht⟩

end Optimize

open Optimize

/-- A planned call has a text on both sides exactly if it is the search for a clause that includes
the text as a category and excludes it as a phrase, or the other way round.  So no search by
category has one, no call at all has one exactly if no clause is of that kind, and for an
expression in which no text is both a category and a phrase no call has one. -/
theorem clashes_optimize_iff {limits : Limits} {e : Expr} {cs : List Clause}
    (h : compileExpr limits e = .ok cs) (popularity : Option Popularity) :
    (∀ d ∈ optimize cs popularity, ∀ t,
        d.Clashes t ↔ ∃ c ∈ cs, d = plainCall .text c ∧ c.Opposes t) ∧
      (∀ d ∈ optimize cs popularity, d.kind = .category → ∀ t, ¬d.Clashes t) ∧
      ((∀ d ∈ optimize cs popularity, ∀ t, ¬d.Clashes t) ↔ ∀ c ∈ cs, ∀ t, ¬c.Opposes t) ∧
      ((∀ t, .category t ∈ e.terms → .phrase t ∉ e.terms) →
        ∀ d ∈ optimize cs popularity, ∀ t, ¬d.Clashes t) := by
  refine ⟨fun d hd t => ⟨exists_opposes_of_clashes h hd, ?_⟩, fun d hd hkind t ht => ?_,
    ⟨fun hnone c hc t ht => ?_, fun hnone d hd t ht => ?_⟩, fun hterms d hd t ht => ?_⟩
  · rintro ⟨c, hc, rfl, hopposes⟩
    exact (clashes_plainCall_iff h hc).mpr hopposes
  · obtain ⟨c, -, rfl, -⟩ := exists_opposes_of_clashes h hd ht
    cases hkind
  · have hmem : plainCall .text c ∈ optimize cs popularity := plainCall_mem_optimize hc ht.group_eq
    exact hnone _ hmem t ((clashes_plainCall_iff h hc).mpr ht)
  · obtain ⟨c, hc, -, hopposes⟩ := exists_opposes_of_clashes h hd ht
    exact hnone c hc t hopposes
  · obtain ⟨c, hc, -, hopposes⟩ := exists_opposes_of_clashes h hd ht
    exact hterms t (mem_terms_of_mem_compileExpr h hc hopposes.category_mem)
      (mem_terms_of_mem_compileExpr h hc hopposes.phrase_mem)

/-- `foo & ~@foo@` can be true, but its search for text includes and excludes `foo`. -/
theorem clashes_optimize_iff_of_category_and_phrase :
    let e : Expr := .and [.atom (.category "foo"), .not (.atom (.phrase "foo"))]
    let c : Clause := ⟨[.category "foo"], [.phrase "foo"]⟩
    compile {} "foo AND NOT @foo@" = .ok [c] ∧ compileExpr {} e = .ok [c] ∧
      ⟨["foo"], ["foo"], .text⟩ ∈ optimize [c] none ∧
      CallDescriptor.Clashes ⟨["foo"], ["foo"], .text⟩ "foo" ∧
      ¬∀ d ∈ optimize [c] none, ∀ t, ¬d.Clashes t := by
  intro e c
  have hquery : compile {} "foo AND NOT @foo@" = .ok [c] := by decide +kernel
  have h : compileExpr {} e = .ok [c] := by decide +kernel
  have hcall : plainCall .text c ∈ optimize [c] none :=
    plainCall_mem_optimize List.mem_cons_self rfl
  have hopposes : c.Opposes "foo" := .inl ⟨List.mem_cons_self, List.mem_cons_self⟩
  obtain ⟨hiff, -, hnone, -⟩ := clashes_optimize_iff h none
  exact ⟨hquery, h, hcall, (hiff _ hcall "foo").mpr ⟨c, List.mem_cons_self, rfl, hopposes⟩,
    fun hall => hnone.mp hall c List.mem_cons_self "foo" hopposes⟩

end PlaceSearch
