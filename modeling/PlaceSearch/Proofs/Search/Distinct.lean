import PlaceSearch.Proofs.Dataset.Algebra
import PlaceSearch.Proofs.Cache.Resolve
import PlaceSearch.Proofs.Search.Whole

/-!
# Every place once

What the provider answers becomes a dataset, and from there on datasets are only put together by
their set algebra.  So whatever is resolved and searched for, all datasets that are stored or
answered are made of features and of one another, and no two features of an answer share an id.
-/

namespace PlaceSearch

variable {σ : Type}

/-- What is common to some datasets can be made if they can. -/
theorem Dataset.Reachable.common {ds : List Dataset} (h : ∀ d ∈ ds, d.Reachable) :
    (Dataset.common ds).Reachable := by
  cases ds with
  | nil => exact .empty
  | cons d ds =>
    rw [Dataset.common]
    induction ds generalizing d with
    | nil => exact h d List.mem_cons_self
    | cons e ds ih =>
      simp only [List.forall_mem_cons] at h
      obtain ⟨hd, he, hds⟩ := h
      exact ih (d.intersection e) (List.forall_mem_cons.mpr ⟨hd.intersection he, hds⟩)

namespace Resolver

variable {r : Resolver σ} {holds : σ → CacheKey → Dataset → Prop} {geo : Geo}

/-- Everything that the store may give back was made of features. -/
abbrev HoldsReachable (holds : σ → CacheKey → Dataset → Prop) : Session σ → Prop :=
  Stored holds fun _ _ d => d.Reachable

/-- The provider's answer is made of features. -/
theorem keeps_call_reachable (request : Request) :
    Keeps (HoldsReachable holds) (r.call request) fun outcome => outcome.dataset.Reachable := by
  refine (Keeps.call request fun _ _ => id).weaken fun outcome ⟨g, houtcome⟩ => ?_
  obtain ⟨fs, hfs⟩ := houtcome.exists_ofFeatures
  rw [hfs]
  exact (Dataset.Reachable.ofFeatures fs).withNextCursor _

theorem keeps_fetchPhrase_reachable (hstore : r.store.IsHonest holds) (phrase : String) :
    Keeps (HoldsReachable holds) (r.fetchPhrase geo phrase) fun answer =>
      answer.dataset.Reachable := by
  rw [fetchPhrase]
  refine .bind (keeps_lookup hstore _) fun found hfound => ?_
  cases found with
  | some d => exact .pure (hfound d rfl)
  | none =>
    refine .bind (keeps_call_reachable _) fun outcome houtcome => ?_
    exact .bind (keeps_keepWhole hstore houtcome) fun _ _ => .pure houtcome

theorem keeps_composed_reachable (hstore : r.store.IsHonest holds) (d : CallDescriptor) :
    Keeps (HoldsReachable holds) (r.composed d geo) fun found => ∀ a ∈ found, a.Reachable := by
  rw [composed]
  split
  · exact .pure (by simp)
  · refine .bind (keeps_lookup hstore _) fun found hfound => ?_
    cases found with
    | none => exact .pure (by simp)
    | some a =>
      refine .bind (keeps_lookup hstore _) fun found hfound' => ?_
      cases found with
      | none => exact .pure (by simp)
      | some b =>
        have hdifference : (a.difference b).Reachable := (hfound a rfl).difference (hfound' b rfl)
        exact .pure (by simpa using hdifference)

theorem keeps_resolveCategory_reachable (hstore : r.store.IsHonest holds) (d : CallDescriptor) :
    Keeps (HoldsReachable holds) (r.resolveCategory d geo) fun answer =>
      answer.dataset.Reachable := by
  rw [resolveCategory]
  refine .bind (keeps_composed_reachable hstore d) fun found hfound => ?_
  cases found with
  | some a => exact .pure (hfound a rfl)
  | none => exact .bind (keeps_call_reachable _) fun outcome houtcome => .pure houtcome

theorem keeps_resolveText_reachable (hstore : r.store.IsHonest holds) (d : CallDescriptor) :
    Keeps (HoldsReachable holds) (r.resolveText d geo) fun answer => answer.dataset.Reachable := by
  have hphrases : ∀ (geo : Geo) (phrases : List String),
      Keeps (HoldsReachable holds) (phrases.mapM (r.fetchPhrase geo)) fun parts =>
        ∀ part ∈ parts, part.dataset.Reachable := fun geo phrases =>
    .mapM_mem fun phrase _ => keeps_fetchPhrase_reachable hstore phrase
  rw [resolveText]
  split
  · exact .pure .empty
  · refine .bind (hphrases _ d.included) fun included hincluded => ?_
    refine .bind (hphrases _ d.excluded) fun excluded hexcluded => ?_
    refine .pure (.withNextCursor _ (.difference (.common ?_) (.union ?_)))
    · simpa using hincluded
    · simpa using hexcluded

/-- The answer to a call is made of features, and what is stored stays so. -/
theorem keeps_resolve_reachable (hstore : r.store.IsHonest holds) (d : CallDescriptor) :
    Keeps (HoldsReachable holds) (r.resolve d geo) fun answer => answer.dataset.Reachable := by
  rw [resolve]
  refine .bind (keeps_lookup hstore _) fun found hfound => ?_
  cases found with
  | some a => exact .pure (hfound a rfl)
  | none =>
    have hkept : ∀ answer : Resolved, answer.dataset.Reachable →
        Keeps (HoldsReachable holds)
          (do r.keepWhole (.ofDescriptor d geo) answer; return answer) fun answer =>
            answer.dataset.Reachable := fun answer hanswer =>
      .bind (keeps_keepWhole hstore hanswer) fun _ _ => .pure hanswer
    cases d.kind with
    | category => exact .bind (keeps_resolveCategory_reachable hstore d) hkept
    | text => exact .bind (keeps_resolveText_reachable hstore d) hkept

end Resolver

namespace Searcher

variable {s : Searcher σ} {holds : σ → CacheKey → Dataset → Prop}

/-- The answer to a query is made of features, and what is stored stays so. -/
theorem keeps_searchDataset_reachable (hstore : s.store.IsHonest holds) (query : String)
    (type : SearchType) (geo : Geo) :
    Keeps (Resolver.HoldsReachable holds) (s.searchDataset query type geo) fun result =>
      ∀ answer, result = .ok answer → answer.dataset.Reachable := by
  rw [searchDataset]
  refine .bind (Resolver.keeps_lookup hstore _) fun found hfound => ?_
  cases found with
  | some d => exact .pure fun answer hanswer => Except.ok.inj hanswer ▸ hfound d rfl
  | none =>
    cases s.planCalls query type with
    | error e => exact .pure (by simp)
    | ok calls =>
      have htick : ∀ session : Session σ, Resolver.HoldsReachable holds session →
          Resolver.HoldsReachable holds session.tick := fun _ => id
      have hresolve : Keeps (Resolver.HoldsReachable holds) (s.resolveAll calls geo) fun parts =>
          ∀ part ∈ parts, part.dataset.Reachable :=
        (Keeps.together (fun d _ => Resolver.keeps_resolve_reachable hstore d) htick).weaken
          fun _ => forall_mem_of_forall₂
      refine hresolve.bind fun parts hparts => ?_
      have hgather : (gather parts).dataset.Reachable := by
        refine .withNextCursor _ (.union ?_)
        simpa using hparts
      refine .bind (Resolver.keeps_keepWhole hstore hgather) fun _ _ => .pure fun answer hok => ?_
      exact Except.ok.inj hok ▸ hgather

/-- After any uses everything that is stored is made of features, if it was so before. -/
theorem holdsReachable_afterUses (hstore : s.store.IsHonest holds) (uses : List CacheUse)
    {session : Session σ} (h : Resolver.HoldsReachable holds session) :
    Resolver.HoldsReachable holds (s.afterUses session uses) := by
  induction uses generalizing session with
  | nil => exact h
  | cons use uses ih =>
    rw [afterUses, List.foldl_cons, ← afterUses]
    cases use with
    | resolve d geo => exact ih ((Resolver.keeps_resolve_reachable hstore d).run h).2
    | search query type geo =>
      exact ih ((keeps_searchDataset_reachable hstore query type geo).run h).2

/-- No two features of an answer with ids share one. -/
theorem nodup_idsOf_search (hstore : s.store.IsHonest holds) {session : Session σ}
    (h : Resolver.HoldsReachable holds session) {q : SearchRequest} (hkeep : q.keepIds = true)
    {result : SearchResult} (hresult : ((s.search q).run session).1 = .ok result) :
    (Dataset.idsOf result.collection.features).Nodup := by
  have hrun : ((s.search q).run session).1 =
      ((s.searchDataset q.query q.type q.geo).run session).1.map fun r =>
        ⟨.ofDataset r.dataset q.keepIds, r.nextCursor, r.apiCalls⟩ := by
    rw [search, Process.run_bind]
    rfl
  rw [hrun] at hresult
  cases hanswer : ((s.searchDataset q.query q.type q.geo).run session).1 with
  | error e =>
    rw [hanswer] at hresult
    cases hresult
  | ok answer =>
    rw [hanswer] at hresult
    obtain rfl := Except.ok.inj hresult
    have hreachable := ((keeps_searchDataset_reachable hstore _ _ _).run h).1 answer hanswer
    have hfeatures : (Collection.ofDataset answer.dataset q.keepIds).features =
        answer.dataset.features := if_pos hkeep
    rw [hfeatures]
    exact hreachable.nodup_ids

end Searcher

/-- No two features of a dataset made of features and of other such datasets share an id.  A union
of any datasets has, in order, the features of all of them that are new after those before them, so
it loses no id.  A difference and an intersection share out the features of their first dataset, in
order: one with an id is in exactly one of them, by whether the second dataset has this id, and one
without is in the difference only.  A union within a union is as good as its parts, so unions are
associative.  From a store that was filled with such datasets, a search that is asked to keep ids
has an answer with no id twice, whatever the provider does and whatever was resolved and searched
for before. -/
theorem Dataset.set_algebra_by_id :
    (∀ d : Dataset, d.Reachable → d.ids.Nodup) ∧
    (∀ ds : List Dataset, (union ds).features = firsts (ds.flatMap (·.features)) ∧
      ∀ d ∈ ds, ∀ id ∈ d.ids, id ∈ (union ds).ids) ∧
    (∀ a b : Dataset, a.Reachable →
      (a.difference b).features = a.features.filter (fun f => ¬b.HasIdOf f) ∧
      (a.intersection b).features = a.features.filter (fun f => b.HasIdOf f) ∧
      ∀ f ∈ a.features,
        (∀ id, f.id? = some id →
          (f ∈ (a.intersection b).features ↔ id ∈ b.ids) ∧
          (f ∈ (a.difference b).features ↔ id ∉ b.ids)) ∧
        (f.id? = none → f ∈ (a.difference b).features ∧ f ∉ (a.intersection b).features)) ∧
    (∀ before parts after : List Dataset,
      (union (before ++ union parts :: after)).features =
        (union (before ++ parts ++ after)).features) ∧
    (∀ a b c : Dataset,
      (union [union [a, b], c]).features = (union [a, union [b, c]]).features) ∧
    ∀ {σ : Type} (s : Searcher σ) (holds : σ → CacheKey → Dataset → Prop),
      s.store.IsHonest holds → ∀ start : Session σ,
      (∀ key d, holds start.store key d → d.Reachable) → ∀ uses : List CacheUse,
      ∀ q : SearchRequest, q.keepIds = true → ∀ result,
        ((s.search q).run (s.afterUses start uses)).1 = .ok result →
          (result.collection.features.filterMap Feature.id?).Nodup := by
  refine ⟨fun d hd => hd.nodup_ids, fun ds => ⟨features_union_eq_firsts ds, ?_⟩,
    fun a b ha => ⟨ha.features_difference b, ha.features_intersection b, fun f hf => ?_⟩,
    features_union_splice, fun a b c => ?_, fun s holds hstore start hstart uses q hkeep => ?_⟩
  · intro d hd id hid
    exact mem_ids_union.mpr ⟨d, hd, hid⟩
  · rw [ha.features_difference, ha.features_intersection]
    simp only [List.mem_filter, hf, HasIdOf, true_and]
    refine ⟨fun id hid => ?_, fun hnone => ?_⟩
    · simp [hid]
    · simp [hnone]
  · have hleft := features_union_splice [] [a, b] [c]
    have hright := features_union_splice [a] [b, c] []
    exact hleft.trans hright.symm
  · intro result hresult
    have hheld : Resolver.HoldsReachable holds (s.afterUses start uses) :=
      Searcher.holdsReachable_afterUses hstore uses hstart
    exact Searcher.nodup_idsOf_search hstore hheld hkeep hresult

/-- A dataset of features with an id twice and one without an id, and a search whose two phrases
find a place in common. -/
theorem Dataset.set_algebra_by_id_of_two_phrases :
    let place (id : Option String) : Feature :=
      { geometry := { lng := 18.06, lat := 59.33 }, properties := { id } }
    let a := ofFeatures [place (some "x"), place none, place (some "y"), place (some "x")]
    let b := ofFeatures [place (some "y")]
    let body (ids : List String) : Json :=
      .obj [("places", .arr (ids.map fun id => .obj [("id", .str id)]))]
    let transport : Transport := fun _ r =>
      match r with
      | .text _ "a" _ => .answered 200 (body ["x", "y", "x"])
      | _ => .answered 200 (body ["y", "z"])
    let s : Searcher (Table Dataset) :=
      { transport, policy := { maxRetries := 0 }, store := .inMemory }
    let q : SearchRequest :=
      { query := "@a@ OR @b@", type := .phrases, circle := ⟨⟨59.33, 18.06⟩, 1500.0⟩, page := none,
        keepIds := true }
    let uses : List CacheUse := [.search "@b@" .phrases q.geo]
    (a.Reachable ∧ a.ids = ["x", "y"] ∧ a.ids.Nodup) ∧
      ((a.intersection b).ids = ["y"] ∧ (a.difference b).ids = ["x"] ∧
        place none ∈ (a.difference b).features ∧ place none ∉ (a.intersection b).features) ∧
      ∃ result,
        ((s.search q).run (s.afterUses { store := [] } uses)).1 = .ok result ∧
          result.collection.features.filterMap Feature.id? = ["x", "y", "z"] ∧
          (result.collection.features.filterMap Feature.id?).Nodup := by
  intro place a b body transport s q uses
  obtain ⟨hnodup, -, hsplit, -, -, hsearch⟩ := Dataset.set_algebra_by_id
  have ha : a.Reachable := .ofFeatures _
  have hmem : place none ∈ a.features := by
    have hfeatures : a.features = [place (some "x"), place none, place (some "y")] := rfl
    simp [hfeatures]
  obtain ⟨-, -, hshare⟩ := hsplit a b ha
  have hempty : ∀ (key : CacheKey) (d : Dataset),
      Table.get? key.canonical [] = some d → d.Reachable := by
    intro key d hd
    cases hd
  have hids : ((s.search q).run (s.afterUses { store := [] } uses)).1.map
      (fun result => result.collection.features.filterMap Feature.id?) = .ok ["x", "y", "z"] := by
    decide +kernel
  cases hresult : ((s.search q).run (s.afterUses { store := [] } uses)).1 with
  | error e =>
    rw [hresult] at hids
    cases hids
  | ok result =>
    rw [hresult] at hids
    have hdistinct := hsearch s _ DatasetStore.isHonest_inMemory { store := [] } hempty uses q rfl
      result hresult
    exact ⟨⟨ha, by decide +kernel, hnodup a ha⟩,
      ⟨by decide +kernel, by decide +kernel, (hshare (place none) hmem).2 rfl⟩,
      result, rfl, Except.ok.inj hids, hdistinct⟩

end PlaceSearch
