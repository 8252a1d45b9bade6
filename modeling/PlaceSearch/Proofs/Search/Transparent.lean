import PlaceSearch.Proofs.Provider.Listing
import PlaceSearch.Proofs.Search.Plan

/-!
# Stored answers are fresh answers

A search for categories may be answered by what earlier searches left in the store: under the key
of the whole query, under the keys of its calls, or under the keys of other calls that compose.
With a provider that lists a world all these are the answer that the search would get with nothing
in the store, whatever was searched for before, wherever, and whichever accesses to the store fail.

The invariant is what a dataset may be stored as: under the key of a call as the listing of this
call, and under the key of a query as the answer to all calls planned for it, at any place.
-/

namespace PlaceSearch

variable {σ : Type}

/-- The features of the answer to some calls, from a world that is listed. -/
def answerTo (world : List Place) (feature : Place → Feature) (calls : List CallDescriptor) :
    List Feature :=
  (Dataset.union (calls.map fun d =>
    { features := listing world feature d.included d.excluded })).features

namespace Searcher

/-- What may be stored under which key, wherever a search was aimed: under the key of a call for
plain types their listing, and under the key of a query the answer to its calls. -/
inductive Recorded (s : Searcher σ) (world : List Place) (feature : Place → Feature) :
    CacheKey → Dataset → Prop where
  | call {circle : Circle} {included excluded : List String} {d : Dataset}
      (hi : ∀ t ∈ included, CacheKey.IsPlain t) (he : ∀ t ∈ excluded, CacheKey.IsPlain t)
      (hd : d.features = listing world feature included excluded) :
      Recorded s world feature
        (.build SearchKind.category.name (.ofCircle circle) included excluded) d
  | query {circle : Circle} {query : String} {calls : List CallDescriptor} {d : Dataset}
      (hplan : s.planCalls query .categories = .ok calls)
      (hd : d.features = answerTo world feature calls) :
      Recorded s world feature
        (.ofQuery query SearchType.categories.name (.ofCircle circle)) d

variable {s : Searcher σ} {holds : σ → CacheKey → Dataset → Prop} {world : List Place}
  {feature : Place → Feature}

/-- Under the key of a call its listing is recorded, wherever it was aimed before. -/
theorem features_of_recorded_call {circle : Circle} {included excluded : List String}
    {d : Dataset} (hi : ∀ t ∈ included, CacheKey.IsPlain t)
    (he : ∀ t ∈ excluded, CacheKey.IsPlain t)
    (h : s.Recorded world feature
      (.build SearchKind.category.name (.ofCircle circle) included excluded) d) :
    d.features = listing world feature included excluded := by
  generalize hkey : CacheKey.build SearchKind.category.name (.ofCircle circle) included excluded =
    key at h
  cases h with
  | @call circle' included' excluded' _ hi' he' hd =>
    have hsame : CacheKey.SameCall ⟨included, excluded, .category⟩
        ⟨included', excluded', .category⟩ (.ofCircle circle) (.ofCircle circle') :=
      CacheKey.sameCall_of_ofDescriptor_eq nofun nofun (CacheKey.forall_mentions_iff.mpr ⟨hi, he⟩)
        (CacheKey.forall_mentions_iff.mpr ⟨hi', he'⟩) hkey
    rw [hd]
    exact (listing_congr hsame.included hsame.excluded).symm
  | query => exact absurd hkey CacheKey.build_ne_ofQuery

/-- Under the key of a query the answer to its calls is recorded, whoever asked for it before. -/
theorem features_of_recorded_query {circle : Circle} {query : String}
    {calls : List CallDescriptor} (hplan : s.planCalls query .categories = .ok calls)
    {d : Dataset}
    (h : s.Recorded world feature
      (.ofQuery query SearchType.categories.name (.ofCircle circle)) d) :
    d.features = answerTo world feature calls := by
  generalize hkey : CacheKey.ofQuery query SearchType.categories.name (.ofCircle circle) =
    key at h
  cases h with
  | call => exact absurd hkey.symm CacheKey.build_ne_ofQuery
  | @query circle' _ _ _ hplan' hd =>
    have hpage : (Geo.ofCircle circle).page = (Geo.ofCircle circle').page := rfl
    rw [CacheKey.ofQuery_eq_iff SearchType.categories.no_bar_name
      SearchType.categories.no_bar_name hpage] at hkey
    rw [hd, planCalls_categories_eq hkey.2.2 hplan hplan']

/-- The answers to some calls put together are the answer to the calls. -/
theorem features_gather {calls : List CallDescriptor} {parts : List Resolved}
    (h : List.Forall₂
      (fun d part => part.dataset.features = listing world feature d.included d.excluded)
      calls parts) : (gather parts).dataset.features = answerTo world feature calls := by
  have hlists : parts.map (·.dataset.features) =
      calls.map fun d => listing world feature d.included d.excluded := by
    induction h with
    | nil => rfl
    | cons hd _ ih => exact congrArg₂ List.cons hd ih
  have hparts : (gather parts).dataset.features =
      (Dataset.union (parts.map (·.dataset))).features := rfl
  rw [hparts, answerTo]
  refine Dataset.features_union_congr ?_
  rw [List.map_map, List.map_map]
  exact hlists

/-- A search answers with the answer to its calls, if they can be planned, and leaves the store
with nothing but answers. -/
theorem keeps_searchDataset (hstore : s.store.IsHonest holds)
    (hlists : s.transport.Lists world feature) (hnodup : (world.map Place.id).Nodup)
    (query : String) (circle : Circle) :
    Keeps (Resolver.Stored holds fun _ => s.Recorded world feature)
      (s.searchDataset query .categories (.ofCircle circle)) fun result =>
        ∀ calls, s.planCalls query .categories = .ok calls →
          ∃ answer, result = .ok answer ∧
            answer.dataset.features = answerTo world feature calls := by
  rw [searchDataset]
  refine .bind (Resolver.keeps_lookup hstore _) fun found hfound => ?_
  cases found with
  | some d =>
    refine .pure fun calls hplan => ⟨_, rfl, ?_⟩
    exact features_of_recorded_query hplan (hfound d rfl)
  | none =>
    cases hplan : s.planCalls query .categories with
    | error err =>
      refine .pure fun calls hcalls => ?_
      cases hcalls
    | ok calls =>
      have hresolve : ∀ d ∈ calls,
          Keeps (Resolver.Stored holds fun _ => s.Recorded world feature)
            (s.resolve d (.ofCircle circle)) fun part =>
              part.dataset.features = listing world feature d.included d.excluded := by
        intro d hd
        obtain ⟨e, hparse⟩ := exists_parse_of_planCalls hplan
        obtain ⟨hkind, hplain⟩ := of_mem_planCalls_categories hparse hplan hd
        obtain ⟨hi, he⟩ := CacheKey.forall_mentions_iff.mp hplain
        exact Resolver.keeps_resolve hstore (Resolver.judges_of_lists hlists hnodup)
          ⟨features_of_recorded_call, Recorded.call⟩ hkind hi he
      refine .bind (keeps_resolveAll hresolve fun _ => id) fun parts hparts => ?_
      have hanswer := features_gather hparts
      refine .bind (Resolver.keeps_keepWhole hstore (.query hplan hanswer)) fun _ _ => .pure ?_
      intro calls' hcalls'
      obtain rfl := Except.ok.inj hcalls'
      exact ⟨_, rfl, hanswer⟩

/-- The result of a search for categories is as with nothing in the store: whenever the search
succeeds there, this is an answer with the same features in the same order. -/
def AsFresh (s : Searcher σ) (holds : σ → CacheKey → Dataset → Prop) (search : String × Circle)
    (result : Except Error Resolved) : Prop :=
  ∀ fresh : Session σ, (∀ k d, ¬holds fresh.store k d) →
    ∀ expected, ((s.searchDataset search.1 .categories (.ofCircle search.2)).run fresh).1 =
        .ok expected →
      ∃ answer, result = .ok answer ∧ answer.dataset.features = expected.dataset.features

/-- If its calls are planned, a search that is as with nothing in the store is the answer to its
calls. -/
theorem AsFresh.exists_answer (hstore : s.store.IsHonest holds)
    (hlists : s.transport.Lists world feature) (hnodup : (world.map Place.id).Nodup)
    {fresh : Session σ} (hfresh : ∀ k d, ¬holds fresh.store k d) {search : String × Circle}
    {calls : List CallDescriptor} (hplan : s.planCalls search.1 .categories = .ok calls)
    {result : Except Error Resolved} (h : s.AsFresh holds search result) :
    ∃ answer, result = .ok answer ∧ answer.dataset.features = answerTo world feature calls := by
  obtain ⟨expected, hexpected, hfeatures⟩ :=
    ((keeps_searchDataset hstore hlists hnodup search.1 search.2).run (.of_empty hfresh)).1 _ hplan
  obtain ⟨answer, hok, heq⟩ := h fresh hfresh expected hexpected
  exact ⟨answer, hok, heq.trans hfeatures⟩

/-- Searches for categories that share a store, empty at first and failing at will, answer as they
would with nothing in the store. -/
theorem searchDataset_transparent (hstore : s.store.IsHonest holds)
    (hlists : s.transport.Lists world feature) (hnodup : (world.map Place.id).Nodup)
    (searches : List (String × Circle)) {session : Session σ}
    (hempty : ∀ k d, ¬holds session.store k d) :
    List.Forall₂ (s.AsFresh holds) searches
      ((searches.mapM fun search =>
        s.searchDataset search.1 .categories (.ofCircle search.2)).run session).1 := by
  have hsearch := fun search : String × Circle =>
    keeps_searchDataset hstore hlists hnodup search.1 search.2
  obtain ⟨hresults, -⟩ :=
    (Keeps.mapM fun search _ => hsearch search).run (.of_empty hempty)
  refine hresults.imp fun search result hresult fresh hfresh expected hexpected => ?_
  obtain ⟨calls, hplan⟩ := exists_planCalls_of_empty hstore hfresh hexpected
  obtain ⟨answer, hanswer, hfeatures⟩ := hresult calls hplan
  obtain ⟨answer', hanswer', hfeatures'⟩ :=
    ((hsearch search).run (.of_empty hfresh)).1 calls hplan
  rw [hexpected] at hanswer'
  obtain rfl := Except.ok.inj hanswer'
  exact ⟨answer, hanswer, hfeatures.trans hfeatures'.symm⟩

/-- The calls for a query over categories with a single clause. -/
theorem planCalls_of_single_clause {query : String} {e : Expr} {c : Clause}
    (hparse : parse query = .ok e) (hterms : ∀ t ∈ e.terms, t.kind = .category)
    (hcompile : compile s.limits query = .ok [c]) (hkind : c.kind = .category) :
    s.planCalls query .categories = .ok [Optimize.plainCall .category c] := by
  rw [planCalls_of_categories hparse hterms hcompile, optimize_singleton hkind]

/-- Two answers kept for two categories compose to the answer to a third search, aimed elsewhere,
while every third access to the store fails. -/
theorem searchDataset_transparent_of_unreliable :
    let world : List Place :=
      [⟨"b", ["bar"]⟩, ⟨"bc", ["bar", "cafe"]⟩, ⟨"c", ["cafe"]⟩]
    let s : Searcher (Nat × Table Dataset) :=
      { transport := .ofWorld world, policy := {}, store := .unreliable fun n => n % 3 == 1 }
    let here : Circle := ⟨⟨59.33, 18.06⟩, 1500.0⟩
    let there : Circle := ⟨⟨57.71, 11.97⟩, 500.0⟩
    let searches := [("bar", here), ("cafe", here), ("bar AND NOT cafe", there)]
    let session : Session (Nat × Table Dataset) := { store := (0, []) }
    ∃ first second third : Resolved,
      ((searches.mapM fun search =>
        s.searchDataset search.1 .categories (.ofCircle search.2)).run session).1 =
          [.ok first, .ok second, .ok third] ∧
      first.dataset.ids = ["b", "bc"] ∧ second.dataset.ids = ["bc", "c"] ∧
      third.dataset.ids = ["b"] := by
  intro world s here there searches session
  have hnodup : (world.map Place.id).Nodup := by decide
  have hstore := DatasetStore.isHonest_unreliable fun n => n % 3 == 1
  have hlists := Transport.lists_ofWorld world
  have hempty : ∀ (k : CacheKey) (d : Dataset), ¬session.store.2.get? k.canonical = some d := by
    simp [session]
  have hatom : ∀ text, ∀ t ∈ (Expr.atom (.category text)).terms, t.kind = .category := by
    intro text t ht
    rw [Expr.mem_terms_atom.mp ht]
    rfl
  have hand : ∀ t ∈ Expr.terms (.and [.atom (.category "bar"), .not (.atom (.category "cafe"))]),
      t.kind = .category := by decide
  have hparse : parse "bar" = .ok (.atom (.category "bar")) ∧
      parse "cafe" = .ok (.atom (.category "cafe")) ∧ parse "bar AND NOT cafe" =
        .ok (.and [.atom (.category "bar"), .not (.atom (.category "cafe"))]) := ⟨rfl, rfl, rfl⟩
  have hcompile : compile {} "bar" = .ok [⟨[.category "bar"], []⟩] ∧
      compile {} "cafe" = .ok [⟨[.category "cafe"], []⟩] ∧ compile {} "bar AND NOT cafe" =
        .ok [⟨[.category "bar"], [.category "cafe"]⟩] := ⟨rfl, rfl, rfl⟩
  have hbar : s.planCalls "bar" .categories = _ :=
    planCalls_of_single_clause hparse.1 (hatom "bar") hcompile.1 rfl
  have hcafe : s.planCalls "cafe" .categories = _ :=
    planCalls_of_single_clause hparse.2.1 (hatom "cafe") hcompile.2.1 rfl
  have hboth : s.planCalls "bar AND NOT cafe" .categories = _ :=
    planCalls_of_single_clause hparse.2.2 hand hcompile.2.2 rfl
  obtain ⟨_, _, hfirst, hrest, heq⟩ := List.forall₂_cons_left_iff.mp
    (searchDataset_transparent hstore hlists hnodup searches hempty : List.Forall₂
      (s.AsFresh fun t k d => t.2.get? k.canonical = some d) searches _)
  obtain ⟨_, _, hsecond, hlast, rfl⟩ := List.forall₂_cons_left_iff.mp hrest
  obtain ⟨_, _, hthird, hnone, rfl⟩ := List.forall₂_cons_left_iff.mp hlast
  obtain rfl := List.forall₂_nil_left_iff.mp hnone
  obtain ⟨first, rfl, hids⟩ := hfirst.exists_answer hstore hlists hnodup hempty hbar
  obtain ⟨second, rfl, hids'⟩ := hsecond.exists_answer hstore hlists hnodup hempty hcafe
  obtain ⟨third, rfl, hids''⟩ := hthird.exists_answer hstore hlists hnodup hempty hboth
  exact ⟨first, second, third, heq, congrArg Dataset.idsOf hids, congrArg Dataset.idsOf hids',
    congrArg Dataset.idsOf hids''⟩

end Searcher

end PlaceSearch
