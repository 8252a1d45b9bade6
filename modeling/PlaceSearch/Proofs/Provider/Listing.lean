import PlaceSearch.Proofs.Cache.Resolve
import PlaceSearch.Proofs.Provider.World

/-!
# Providers that list a world

A provider that answers searches by category from a world in the order of the world, wherever
they are aimed.  Then an answer is known with its order, and answers compose in this order: the
places with an included type less those with an excluded one are listed as the places with both
are.
-/

namespace PlaceSearch

/-- The features of the places of a world that a search by category is for, in order. -/
def listing (world : List Place) (feature : Place → Feature) (included excluded : List String) :
    List Feature :=
  (world.filter fun p => CallDescriptor.answers ⟨included, excluded, .category⟩ p.types).map
    feature

/-- Whatever was asked before, and wherever the search is aimed, the provider answers a search by
category with status 200 and the features of the places of the world that it is for, in order. -/
structure Transport.Lists (t : Transport) (world : List Place) (feature : Place → Feature) :
    Prop where
  id : ∀ p ∈ world, (feature p).id? = some p.id
  answer : ∀ sent circle included excluded, ∃ body,
    t sent (.nearby circle included excluded) = .answered 200 body ∧
      Record.features body = listing world feature included excluded

section

variable {world : List Place} {feature : Place → Feature}

/-- What is listed depends on the types asked for as sets. -/
theorem listing_congr {included included' excluded excluded' : List String}
    (hi : ∀ t, t ∈ included ↔ t ∈ included') (he : ∀ t, t ∈ excluded ↔ t ∈ excluded') :
    listing world feature included excluded = listing world feature included' excluded' := by
  have hnil : included = [] ↔ included' = [] := by
    simp only [List.eq_nil_iff_forall_not_mem, hi]
  have hanswers : ∀ types, CallDescriptor.answers ⟨included, excluded, .category⟩ types =
      CallDescriptor.answers ⟨included', excluded', .category⟩ types := by
    intro types
    rw [Bool.eq_iff_iff, CallDescriptor.answers_eq_true_iff, CallDescriptor.answers_eq_true_iff]
    simp only [hi, he, hnil]
  simp only [listing, hanswers]

/-- The ids of what is listed are those of the places that answer. -/
theorem idsOf_listing (hid : ∀ p ∈ world, (feature p).id? = some p.id)
    (included excluded : List String) :
    Dataset.idsOf (listing world feature included excluded) =
      (world.filter fun p =>
        CallDescriptor.answers ⟨included, excluded, .category⟩ p.types).map Place.id := by
  rw [listing, Dataset.idsOf, List.filterMap_map, ← List.filterMap_eq_map]
  refine List.filterMap_congr fun p hp => ?_
  exact hid p (List.mem_filter.mp hp).1

theorem nodup_idsOf_listing (hid : ∀ p ∈ world, (feature p).id? = some p.id)
    (hnodup : (world.map Place.id).Nodup) (included excluded : List String) :
    (Dataset.idsOf (listing world feature included excluded)).Nodup := by
  rw [idsOf_listing hid]
  exact hnodup.sublist (List.filter_sublist.map _)

/-- Listings compose: one less another lists the difference. -/
theorem features_difference_listing (hid : ∀ p ∈ world, (feature p).id? = some p.id)
    (hnodup : (world.map Place.id).Nodup) {included excluded : List String} (hne : excluded ≠ [])
    {a b : Dataset} (ha : a.features = listing world feature included [])
    (hb : b.features = listing world feature excluded []) :
    (a.difference b).features = listing world feature included excluded := by
  have hids : ∀ {d : Dataset} {included}, d.features = listing world feature included [] →
      d.ids = (world.filter fun p =>
        CallDescriptor.answers ⟨included, [], .category⟩ p.types).map Place.id := by
    intro d included hd
    rw [← idsOf_listing hid, ← hd]
    rfl
  have hanodup : a.ids.Nodup := by
    rw [hids ha]
    exact hnodup.sublist (List.filter_sublist.map _)
  rw [Dataset.features_difference hanodup, ha, listing, listing, List.filter_map,
    List.filter_filter]
  congr 1
  refine List.filter_congr fun p hp => ?_
  have hmem : p.id ∈ b.ids ↔ CallDescriptor.answers ⟨excluded, [], .category⟩ p.types = true := by
    rw [hids hb, List.mem_map]
    constructor
    · rintro ⟨q, hq, hid⟩
      obtain ⟨hq, hanswers⟩ := List.mem_filter.mp hq
      obtain rfl := eq_of_id_eq hnodup hq hp hid
      exact hanswers
    · exact fun h => ⟨p, List.mem_filter.mpr ⟨hp, h⟩, rfl⟩
  rw [Function.comp_apply, hid p hp, Bool.eq_iff_iff]
  simp only [Bool.and_eq_true, Bool.not_eq_true', List.contains_eq_mem, decide_eq_false_iff_not,
    hmem, CallDescriptor.answers_eq_true_iff, hne, false_or, List.not_mem_nil, false_implies,
    implies_true, and_true]
  grind

end

/-- A provider that lists a world judges answers by its listings. -/
theorem Resolver.judges_of_lists {σ : Type} {r : Resolver σ} {world : List Place}
    {feature : Place → Feature} (hlists : r.transport.Lists world feature)
    (hnodup : (world.map Place.id).Nodup) :
    r.Judges fun included excluded d => d.features = listing world feature included excluded where
  congr := fun hi he hd => hd.trans (listing_congr hi he)
  call := by
    intro geo included excluded o g ho
    obtain ⟨sent, body, hreply, rfl⟩ := ho.eq_of_answered fun sent => by
      obtain ⟨body, hreply, -⟩ := hlists.answer sent geo.circle included excluded
      exact ⟨body, hreply⟩
    obtain ⟨body', hreply', hfeatures⟩ := hlists.answer sent geo.circle included excluded
    obtain ⟨-, rfl⟩ := Reply.answered.inj (hreply.symm.trans hreply')
    have hnodup' := nodup_idsOf_listing hlists.id hnodup included excluded
    rw [← hfeatures] at hnodup' ⊢
    exact Dataset.features_ofFeatures hnodup'
  difference := fun hne ha hb => features_difference_listing hlists.id hnodup hne ha hb

/-- The provider of a world lists it. -/
theorem Transport.lists_ofWorld (world : List Place) :
    (ofWorld world).Lists world fun p => Record.toFeature p.record where
  id := fun p _ => p.id?_toFeature
  answer := by
    intro sent circle included excluded
    refine ⟨_, rfl, ?_⟩
    have hrecords : ∀ rs : List Json, Record.records (Json.object [("places", .arr rs)]) = rs :=
      fun _ => rfl
    rw [Record.features, hrecords, List.map_map]
    rfl

end PlaceSearch
