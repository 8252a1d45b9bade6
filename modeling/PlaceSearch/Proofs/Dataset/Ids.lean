import PlaceSearch.Dataset.Basic

/-!
# The ids of datasets

Datasets are compared by the ids of their features.  Putting features together gives the ids of
all of them, each once, and the set algebra of datasets is that of their ids.
-/

namespace PlaceSearch

namespace Dataset

/-- The ids of some features. -/
def idsOf (fs : List Feature) : List String :=
  fs.filterMap Feature.id?

theorem mem_ids {id : String} {d : Dataset} :
    id ∈ d.ids ↔ ∃ f ∈ d.features, f.id? = some id :=
  List.mem_filterMap

theorem mem_idsOf {id : String} {fs : List Feature} :
    id ∈ idsOf fs ↔ ∃ f ∈ fs, f.id? = some id :=
  List.mem_filterMap

theorem ids_empty : ({} : Dataset).ids = [] :=
  rfl

/-- A dataset holds a stand-in if it has the id of stand-ins. -/
theorem isDegraded_iff {d : Dataset} : d.isDegraded = true ↔ Feature.failedId ∈ d.ids := by
  rw [isDegraded, List.any_eq_true, mem_ids]
  simp only [Feature.isFailed, beq_iff_eq]

theorem mem_idsOf_fresh {id : String} {seen : List String} {fs : List Feature} :
    id ∈ idsOf (fresh seen fs) ↔ id ∈ idsOf fs ∧ id ∉ seen := by
  induction fs generalizing seen with
  | nil => simp [fresh, idsOf]
  | cons f fs ih =>
    rw [fresh]
    cases hid : f.id? with
    | none => simpa [idsOf, hid] using ih
    | some fid =>
      have hcons : id ∈ idsOf (f :: fs) ↔ id = fid ∨ id ∈ idsOf fs := by
        rw [idsOf, List.filterMap_cons_some hid, List.mem_cons, idsOf]
      rw [hcons]
      dsimp only
      split
      · next hseen =>
        have hmem : fid ∈ seen := by simpa using hseen
        rw [ih]
        grind
      · next hseen =>
        have hmem : fid ∉ seen := by simpa using hseen
        rw [idsOf, List.filterMap_cons_some hid, List.mem_cons, ← idsOf, ih, List.mem_cons]
        grind

theorem nodup_idsOf_fresh (seen : List String) (fs : List Feature) :
    (idsOf (fresh seen fs)).Nodup := by
  induction fs generalizing seen with
  | nil => exact List.nodup_nil
  | cons f fs ih =>
    rw [fresh]
    cases hid : f.id? with
    | none => simpa [idsOf, hid] using ih seen
    | some fid =>
      dsimp only
      split
      · exact ih seen
      · rw [idsOf, List.filterMap_cons_some hid, List.nodup_cons]
        exact ⟨fun hmem => (mem_idsOf_fresh.mp hmem).2 List.mem_cons_self, ih (fid :: seen)⟩

theorem ids_append (d : Dataset) (fs : List Feature) :
    (d.append fs).ids = d.ids ++ idsOf (fresh d.ids fs) :=
  List.filterMap_append

theorem mem_ids_append {id : String} {d : Dataset} {fs : List Feature} :
    id ∈ (d.append fs).ids ↔ id ∈ d.ids ∨ id ∈ idsOf fs := by
  rw [ids_append, List.mem_append, mem_idsOf_fresh]
  grind

theorem nodup_ids_append {d : Dataset} (h : d.ids.Nodup) (fs : List Feature) :
    (d.append fs).ids.Nodup := by
  rw [ids_append, List.nodup_append]
  refine ⟨h, nodup_idsOf_fresh d.ids fs, fun id hid id' hid' heq => ?_⟩
  exact (mem_idsOf_fresh.mp hid').2 (heq ▸ hid)

theorem mem_ids_ofFeatures {id : String} {fs : List Feature} :
    id ∈ (ofFeatures fs).ids ↔ id ∈ idsOf fs := by
  rw [ofFeatures, mem_ids_append, ids_empty]
  simp

theorem nodup_ids_ofFeatures (fs : List Feature) : (ofFeatures fs).ids.Nodup := by
  have hnone : ({} : Dataset).ids.Nodup := List.nodup_nil
  exact nodup_ids_append hnone fs

/-- A difference has the ids of the first dataset that the second lacks. -/
theorem mem_ids_difference {id : String} {a b : Dataset} :
    id ∈ (a.difference b).ids ↔ id ∈ a.ids ∧ id ∉ b.ids := by
  rw [difference, mem_ids_ofFeatures, mem_idsOf, mem_ids]
  constructor
  · rintro ⟨f, hf, hid⟩
    obtain ⟨hmem, hkeep⟩ := List.mem_filter.mp hf
    rw [hid] at hkeep
    exact ⟨⟨f, hmem, hid⟩, by simpa using hkeep⟩
  · rintro ⟨⟨f, hmem, hid⟩, hb⟩
    refine ⟨f, List.mem_filter.mpr ⟨hmem, ?_⟩, hid⟩
    rw [hid]
    simpa using hb

/-- The datasets of a union one after the other, after a dataset. -/
theorem mem_ids_foldl_append {id : String} {acc : Dataset} {ds : List Dataset} :
    id ∈ (ds.foldl (fun acc d => acc.append d.features) acc).ids ↔
      id ∈ acc.ids ∨ ∃ d ∈ ds, id ∈ d.ids := by
  induction ds generalizing acc with
  | nil => simp
  | cons d ds ih =>
    rw [List.foldl_cons, ih, mem_ids_append, or_assoc]
    simp [idsOf, ids]

theorem nodup_ids_foldl_append {acc : Dataset} (h : acc.ids.Nodup) (ds : List Dataset) :
    (ds.foldl (fun acc d => acc.append d.features) acc).ids.Nodup := by
  induction ds generalizing acc with
  | nil => exact h
  | cons d ds ih => exact ih (nodup_ids_append h d.features)

theorem ids_union (ds : List Dataset) :
    (union ds).ids = (ds.foldl (fun (acc : Dataset) d => acc.append d.features) {}).ids := by
  rw [union]
  split <;> rfl

/-- A union has the ids of all datasets. -/
theorem mem_ids_union {id : String} {ds : List Dataset} :
    id ∈ (union ds).ids ↔ ∃ d ∈ ds, id ∈ d.ids := by
  rw [ids_union, mem_ids_foldl_append, ids_empty]
  simp

theorem nodup_ids_union (ds : List Dataset) : (union ds).ids.Nodup := by
  rw [ids_union]
  have hnone : ({} : Dataset).ids.Nodup := List.nodup_nil
  exact nodup_ids_foldl_append hnone ds

/-! ## Features that are told apart -/

/-- Features with ids of their own that were not seen before all stay. -/
theorem fresh_eq_self {seen : List String} {fs : List Feature} (h : (idsOf fs).Nodup)
    (hseen : ∀ id ∈ idsOf fs, id ∉ seen) : fresh seen fs = fs := by
  induction fs generalizing seen with
  | nil => rfl
  | cons f fs ih =>
    rw [fresh]
    cases hid : f.id? with
    | none =>
      rw [idsOf, List.filterMap_cons_none hid] at h hseen
      exact congrArg (f :: ·) (ih h hseen)
    | some id =>
      rw [idsOf, List.filterMap_cons_some hid] at h hseen
      obtain ⟨hnot, hnodup⟩ := List.nodup_cons.mp h
      obtain ⟨hhead, htail⟩ := List.forall_mem_cons.mp hseen
      dsimp only
      rw [if_neg (by simpa using hhead), ih hnodup fun id' hid' hmem => ?_]
      rcases List.mem_cons.mp hmem with rfl | hmem
      · exact hnot hid'
      · exact htail id' hid' hmem

theorem features_append (d : Dataset) (fs : List Feature) :
    (d.append fs).features = d.features ++ fresh (idsOf d.features) fs :=
  rfl

theorem features_ofFeatures {fs : List Feature} (h : (idsOf fs).Nodup) :
    (ofFeatures fs).features = fs :=
  fresh_eq_self h (by simp [ids])

/-- The features of a difference are those of the first dataset whose ids the second lacks. -/
theorem features_difference {a : Dataset} (h : a.ids.Nodup) (b : Dataset) :
    (a.difference b).features = a.features.filter fun f =>
      match f.id? with
      | none => true
      | some id => !b.ids.contains id := by
  refine features_ofFeatures (h.sublist ?_)
  exact List.filter_sublist.filterMap _

/-- The features of an intersection are those of the first dataset whose ids the second has; those
without an id are left out. -/
theorem features_intersection {a : Dataset} (h : a.ids.Nodup) (b : Dataset) :
    (a.intersection b).features = a.features.filter fun f =>
      match f.id? with
      | none => false
      | some id => b.ids.contains id := by
  refine features_ofFeatures (h.sublist ?_)
  exact List.filter_sublist.filterMap _

theorem features_foldl_append_congr {ds ds' : List Dataset} {acc acc' : Dataset}
    (h : ds.map (·.features) = ds'.map (·.features)) (hacc : acc.features = acc'.features) :
    (ds.foldl (fun acc d => acc.append d.features) acc).features =
      (ds'.foldl (fun acc d => acc.append d.features) acc').features := by
  induction ds generalizing ds' acc acc' with
  | nil =>
    rw [List.map_eq_nil_iff.mp h.symm]
    exact hacc
  | cons d ds ih =>
    obtain ⟨d', ds', rfl, hd, hds⟩ := List.map_eq_cons_iff.mp h.symm
    rw [List.foldl_cons, List.foldl_cons]
    refine ih hds.symm ?_
    rw [features_append, features_append, hacc, hd]

theorem features_union (ds : List Dataset) :
    (union ds).features =
      (ds.foldl (fun (acc : Dataset) d => acc.append d.features) {}).features := by
  rw [union]
  split <;> rfl

/-- The features of a union are made from those of its parts alone. -/
theorem features_union_congr {ds ds' : List Dataset}
    (h : ds.map (·.features) = ds'.map (·.features)) :
    (union ds).features = (union ds').features := by
  rw [features_union, features_union, features_foldl_append_congr h rfl]

end Dataset

end PlaceSearch
