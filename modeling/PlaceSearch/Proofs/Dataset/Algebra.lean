import Mathlib.Data.List.Induction
import PlaceSearch.Proofs.Dataset.Ids

/-!
# The set algebra of datasets

Putting features together keeps the first feature of every id, in order, and every feature without
an id.  What was kept once is kept again, so a union may be made in any grouping.  A difference and
an intersection share out the features of their first dataset between them: a feature goes to the
one or the other by whether the second dataset has its id, and one without an id goes to the
difference.

Whatever datasets are made by these operations, no two features of them share an id.
-/

namespace PlaceSearch

namespace Dataset

/-! ## Features one after the other -/

theorem fresh_cons_of_none {f : Feature} (hid : f.id? = none) (seen : List String)
    (fs : List Feature) : fresh seen (f :: fs) = f :: fresh seen fs := by
  rw [fresh, hid]

theorem fresh_cons_of_mem {f : Feature} {id : String} {seen : List String} (hid : f.id? = some id)
    (hseen : id ∈ seen) (fs : List Feature) : fresh seen (f :: fs) = fresh seen fs := by
  rw [fresh, hid]
  exact if_pos (by simpa using hseen)

theorem fresh_cons_of_not_mem {f : Feature} {id : String} {seen : List String}
    (hid : f.id? = some id) (hseen : id ∉ seen) (fs : List Feature) :
    fresh seen (f :: fs) = f :: fresh (id :: seen) fs := by
  rw [fresh, hid]
  exact if_neg (by simpa using hseen)

/-- What was seen matters only as a set. -/
theorem fresh_congr {seen seen' : List String} (h : ∀ id, id ∈ seen ↔ id ∈ seen')
    (fs : List Feature) : fresh seen fs = fresh seen' fs := by
  induction fs generalizing seen seen' with
  | nil => rfl
  | cons f fs ih =>
    cases hid : f.id? with
    | none => rw [fresh_cons_of_none hid, fresh_cons_of_none hid, ih h]
    | some id =>
      by_cases hseen : id ∈ seen
      · rw [fresh_cons_of_mem hid hseen, fresh_cons_of_mem hid ((h id).mp hseen), ih h]
      · have hseen' : id ∉ seen' := fun hmem => hseen ((h id).mpr hmem)
        have hcons : ∀ id', id' ∈ id :: seen ↔ id' ∈ id :: seen' := by
          intro id'
          rw [List.mem_cons, List.mem_cons, h id']
        rw [fresh_cons_of_not_mem hid hseen, fresh_cons_of_not_mem hid hseen', ih hcons]

/-- Of features one after the other, the later ones are new if they are so after the earlier
ones. -/
theorem fresh_append (seen : List String) (fs gs : List Feature) :
    fresh seen (fs ++ gs) = fresh seen fs ++ fresh (idsOf fs ++ seen) gs := by
  induction fs generalizing seen with
  | nil => rfl
  | cons f fs ih =>
    rw [List.cons_append]
    cases hid : f.id? with
    | none =>
      rw [fresh_cons_of_none hid, fresh_cons_of_none hid, ih, idsOf, idsOf,
        List.filterMap_cons_none hid, List.cons_append]
    | some id =>
      rw [idsOf, List.filterMap_cons_some hid, ← idsOf, List.cons_append]
      by_cases hseen : id ∈ seen
      · rw [fresh_cons_of_mem hid hseen, fresh_cons_of_mem hid hseen, ih]
        refine congrArg (fresh seen fs ++ ·) (fresh_congr (fun id' => ?_) gs)
        by_cases heq : id' = id <;> simp [heq, hseen]
      · rw [fresh_cons_of_not_mem hid hseen, fresh_cons_of_not_mem hid hseen, ih,
          List.cons_append]
        refine congrArg (f :: fresh (id :: seen) fs ++ ·) (fresh_congr (fun id' => ?_) gs)
        simp only [List.mem_append, List.mem_cons]
        exact or_left_comm

/-- What is left out because it was seen would be left out by one who has seen more. -/
theorem fresh_fresh {seen seen' : List String} (h : seen' ⊆ seen) (fs : List Feature) :
    fresh seen (fresh seen' fs) = fresh seen fs := by
  induction fs generalizing seen seen' with
  | nil => rfl
  | cons f fs ih =>
    cases hid : f.id? with
    | none =>
      rw [fresh_cons_of_none hid, fresh_cons_of_none hid, fresh_cons_of_none hid, ih h]
    | some id =>
      by_cases hseen' : id ∈ seen'
      · rw [fresh_cons_of_mem hid hseen', fresh_cons_of_mem hid (h hseen'), ih h]
      · rw [fresh_cons_of_not_mem hid hseen']
        by_cases hseen : id ∈ seen
        · rw [fresh_cons_of_mem hid hseen, fresh_cons_of_mem hid hseen,
            ih (List.cons_subset.mpr ⟨hseen, h⟩)]
        · rw [fresh_cons_of_not_mem hid hseen, fresh_cons_of_not_mem hid hseen,
            ih (List.cons_subset_cons id h)]

/-! ## The first feature of every id -/

/-- The feature has no id, or one that none of the earlier ones has. -/
def IsNewAfter (earlier : List Feature) (f : Feature) : Prop :=
  ∀ id ∈ f.id?, ∀ g ∈ earlier, g.id? ≠ some id

instance (earlier : List Feature) (f : Feature) : Decidable (IsNewAfter earlier f) := by
  unfold IsNewAfter
  infer_instance

/-- The features of a list that are new after all before them, in order. -/
def firsts (fs : List Feature) : List Feature :=
  (fs.zipIdx.filter fun p => IsNewAfter (fs.take p.2) p.1).map Prod.fst

theorem firsts_concat (fs : List Feature) (f : Feature) :
    firsts (fs ++ [f]) = firsts fs ++ if IsNewAfter fs f then [f] else [] := by
  have hinit : (fs.zipIdx.filter fun p => IsNewAfter ((fs ++ [f]).take p.2) p.1) =
      fs.zipIdx.filter fun p => IsNewAfter (fs.take p.2) p.1 := by
    refine List.filter_congr fun p hp => ?_
    have hlt : p.2 < fs.length := by
      obtain ⟨-, hlt, -⟩ := List.mem_zipIdx hp
      omega
    rw [List.take_append_of_le_length (Nat.le_of_lt hlt)]
  rw [firsts, List.zipIdx_append, List.filter_append, hinit, List.map_append, ← firsts]
  by_cases hnew : IsNewAfter fs f <;> simp [hnew]

theorem fresh_singleton (earlier : List Feature) (f : Feature) :
    fresh (idsOf earlier) [f] = if IsNewAfter earlier f then [f] else [] := by
  cases hid : f.id? with
  | none =>
    have hnew : IsNewAfter earlier f := by simp [IsNewAfter, hid]
    rw [fresh_cons_of_none hid, if_pos hnew, fresh]
  | some id =>
    have hiff : IsNewAfter earlier f ↔ id ∉ idsOf earlier := by simp [IsNewAfter, hid, mem_idsOf]
    by_cases hmem : id ∈ idsOf earlier
    · rw [fresh_cons_of_mem hid hmem, if_neg fun hnew => hiff.mp hnew hmem, fresh]
    · rw [fresh_cons_of_not_mem hid hmem, if_pos (hiff.mpr hmem), fresh]

/-- The features that stay when features are put together are the first ones of every id. -/
theorem fresh_nil_eq_firsts (fs : List Feature) : fresh [] fs = firsts fs := by
  induction fs using List.reverseRecOn with
  | nil => rfl
  | append_singleton fs f ih =>
    rw [fresh_append, List.append_nil, fresh_singleton, firsts_concat, ih]

/-! ## Unions -/

/-- The features of a dataset and of further ones, one after the other. -/
theorem features_foldl_append (acc : Dataset) (ds : List Dataset) :
    (ds.foldl (fun acc d => acc.append d.features) acc).features =
      acc.features ++ fresh acc.ids (ds.flatMap (·.features)) := by
  induction ds generalizing acc with
  | nil => simp [fresh]
  | cons d ds ih =>
    have hids : ∀ id, id ∈ (acc.append d.features).ids ↔ id ∈ idsOf d.features ++ acc.ids := by
      intro id
      rw [mem_ids_append, List.mem_append]
      exact or_comm
    rw [List.foldl_cons, ih, fresh_congr hids, features_append, List.flatMap_cons, fresh_append,
      List.append_assoc]
    rfl

/-- A union keeps what is new of all features one after the other. -/
theorem features_union_eq_fresh (ds : List Dataset) :
    (union ds).features = fresh [] (ds.flatMap (·.features)) := by
  rw [features_union, features_foldl_append]
  rfl

/-- A union keeps the first feature of every id, and those without an id. -/
theorem features_union_eq_firsts (ds : List Dataset) :
    (union ds).features = firsts (ds.flatMap (·.features)) := by
  rw [features_union_eq_fresh, fresh_nil_eq_firsts]

/-- A union that is part of a union may be replaced by its own parts. -/
theorem features_union_splice (before parts after : List Dataset) :
    (union (before ++ union parts :: after)).features =
      (union (before ++ parts ++ after)).features := by
  have hids : ∀ id, id ∈ idsOf (fresh [] (parts.flatMap (·.features))) ↔
      id ∈ idsOf (parts.flatMap (·.features)) := by
    intro id
    rw [mem_idsOf_fresh]
    simp
  simp only [features_union_eq_fresh, List.flatMap_append, List.flatMap_cons, fresh_append,
    List.append_assoc]
  rw [fresh_fresh (List.nil_subset _)]
  refine congrArg _ (congrArg _ (fresh_congr (fun id => ?_) _))
  simp only [List.mem_append, hids]

/-! ## The datasets that can be made -/

/-- Whether the dataset has the id of a feature; of a feature without an id it does not. -/
def HasIdOf (d : Dataset) (f : Feature) : Prop :=
  ∃ id ∈ d.ids, f.id? = some id

instance (d : Dataset) (f : Feature) : Decidable (d.HasIdOf f) := by
  unfold HasIdOf
  infer_instance

/-- The datasets that are made of features and of one another. -/
inductive Reachable : Dataset → Prop
  | ofFeatures (fs : List Feature) : Reachable (ofFeatures fs)
  | difference {a b : Dataset} (ha : Reachable a) (hb : Reachable b) : Reachable (a.difference b)
  | intersection {a b : Dataset} (ha : Reachable a) (hb : Reachable b) :
      Reachable (a.intersection b)
  | union {ds : List Dataset} (h : ∀ d ∈ ds, Reachable d) : Reachable (union ds)
  | withNextCursor {d : Dataset} (cursor : Option String) (h : Reachable d) :
      Reachable (d.withNextCursor cursor)

namespace Reachable

theorem empty : Reachable {} :=
  .ofFeatures []

/-- No two features of a dataset share an id. -/
theorem nodup_ids {d : Dataset} (h : Reachable d) : d.ids.Nodup := by
  induction h with
  | ofFeatures fs => exact nodup_ids_ofFeatures fs
  | difference => exact nodup_ids_ofFeatures _
  | intersection => exact nodup_ids_ofFeatures _
  | union => exact nodup_ids_union _
  | withNextCursor cursor _ ih => exact ih

theorem features_difference {a : Dataset} (ha : Reachable a) (b : Dataset) :
    (a.difference b).features = a.features.filter fun f => ¬b.HasIdOf f := by
  rw [Dataset.features_difference ha.nodup_ids]
  refine List.filter_congr fun f _ => ?_
  cases hid : f.id? <;> simp [HasIdOf, hid]

theorem features_intersection {a : Dataset} (ha : Reachable a) (b : Dataset) :
    (a.intersection b).features = a.features.filter fun f => b.HasIdOf f := by
  rw [Dataset.features_intersection ha.nodup_ids]
  refine List.filter_congr fun f _ => ?_
  cases hid : f.id? <;> simp [HasIdOf, hid]

end Reachable

end Dataset

end PlaceSearch
