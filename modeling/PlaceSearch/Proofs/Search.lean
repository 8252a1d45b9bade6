import PlaceSearch.Proofs.Cache.Resolve
import PlaceSearch.Proofs.Call.Coverage
import PlaceSearch.Proofs.NormalForm.Compile
import PlaceSearch.Proofs.Provider.World
import PlaceSearch.Proofs.Query.Terms
import PlaceSearch.Search

/-!
# What a search for categories returns

A query over categories is searched in a world: its calls are planned from its clauses, every
call is answered from the world, and the answers are put together.  The places returned are
those that have one of the included and none of the excluded categories of some clause.  These
are the places that satisfy the query, and besides them the ones that have some, but not all of
the categories that a clause includes: the provider takes included types as alternatives, and
nothing asks for all of them.
-/

namespace PlaceSearch

variable {σ : Type}

/-! ## Answers from a world -/

/-- The dataset holds the places of the world that a search by category is for. -/
def Dataset.IsAnswer (world : List Place) (included excluded : List String) (d : Dataset) :
    Prop :=
  ∀ id, id ∈ d.ids ↔ Answered world included excluded id

/-- Answers from a world compose: an answer less another is the answer to the difference. -/
theorem Dataset.isAnswer_difference {world : List Place} (h : (world.map Place.id).Nodup)
    {included excluded : List String} {a b : Dataset} (hne : excluded ≠ [])
    (ha : a.IsAnswer world included []) (hb : b.IsAnswer world excluded []) :
    (a.difference b).IsAnswer world included excluded := by
  intro id
  rw [mem_ids_difference, ha, hb]
  simp only [Answered, CallDescriptor.answers_eq_true_iff, hne, false_or, List.not_mem_nil,
    false_implies, implies_true, and_true]
  constructor
  · rintro ⟨⟨p, hp, rfl, hincluded⟩, hexcluded⟩
    exact ⟨p, hp, rfl, hincluded, fun t ht htypes => hexcluded ⟨p, hp, rfl, t, ht, htypes⟩⟩
  · rintro ⟨p, hp, rfl, hincluded, hnone⟩
    refine ⟨⟨p, hp, rfl, hincluded⟩, ?_⟩
    rintro ⟨q, hq, hid, t, ht, htypes⟩
    obtain rfl := eq_of_id_eq h hq hp hid
    exact hnone t ht htypes

/-- A provider with a world judges answers by the world. -/
theorem Resolver.judges_of_serves {r : Resolver σ} {world : List Place}
    (hserves : r.transport.Serves world) (hnodup : (world.map Place.id).Nodup) :
    r.Judges (Dataset.IsAnswer world) where
  congr := by
    intro included included' excluded excluded' d hi he hd id
    have hnil : included = [] ↔ included' = [] := by
      simp only [List.eq_nil_iff_forall_not_mem, hi]
    rw [hd id]
    simp only [Answered, CallDescriptor.answers_eq_true_iff, hi, he, hnil]
  call := fun _ _ _ _ _ ho id => ho.mem_ids_of_serves hserves id
  difference := Dataset.isAnswer_difference hnodup

/-! ## Planning -/

/-- The clauses of a query over categories are over its categories. -/
theorem mem_terms_of_mem_compile {limits : Limits} {query : String} {e : Expr}
    {cs : List Clause} (hparse : parse query = .ok e) (hcompile : compile limits query = .ok cs)
    {c : Clause} (hc : c ∈ cs) {t : Term} (ht : t ∈ c.terms) : t ∈ e.terms := by
  rw [compile, hparse] at hcompile
  exact mem_terms_of_mem_compileExpr hcompile hc ht

theorem Clause.kind_of_categories {c : Clause} (h : ∀ t ∈ c.terms, t.kind = .category) :
    c.kind = .category := by
  unfold kind
  split
  · rfl
  · next t ts hterms =>
    rw [hterms] at h
    have htail : ts.all (·.kind = t.kind) = true := by
      rw [List.all_eq_true]
      intro u hu
      rw [h t List.mem_cons_self, h u (List.mem_cons_of_mem t hu)]
      rfl
    rw [if_pos htail, h t List.mem_cons_self]

/-- The calls for a query over categories are those for its clauses. -/
theorem Searcher.planCalls_of_categories {s : Searcher σ} {query : String} {e : Expr}
    {cs : List Clause} (hparse : parse query = .ok e) (hkind : ∀ t ∈ e.terms, t.kind = .category)
    (hcompile : compile s.limits query = .ok cs) :
    s.planCalls query .categories = .ok (optimize cs (some s.popularity)) := by
  obtain ⟨categories, phrases, hsplit, hne, hhalf⟩ := splitQuery_of_categories hparse hkind
  have hclauses : compile s.limits categories = .ok cs := by
    rw [compile, hhalf, ← hcompile, compile, hparse]
  have hplan : s.planHalf (optimize · (some s.popularity)) categories =
      .ok (optimize cs (some s.popularity)) := by
    rw [planHalf, if_neg (by simpa using hne), hclauses]
    rfl
  simp only [planCalls, hcompile, hsplit, SearchType.hasCategories, SearchType.hasPhrases, hplan,
    bind, Except.bind, pure, Except.pure, List.append_nil, if_true, Bool.false_eq_true, if_false]

/-- The categories of a query are plain texts. -/
theorem isPlain_of_mem_terms {query : String} {e : Expr} (hparse : parse query = .ok e)
    {t : Term} (ht : t ∈ e.terms) (hkind : t.kind = .category) : CacheKey.IsPlain t.text := by
  obtain ⟨hne, hrun⟩ := text_of_mem_terms hparse ht hkind
  refine ⟨hne, fun hcomma => ?_, fun hbar => ?_⟩
  · exact absurd (hrun _ hcomma) (by decide)
  · exact absurd (hrun _ hbar) (by decide)

/-! ## Searching -/

namespace Searcher

variable {s : Searcher σ} {holds : σ → CacheKey → Dataset → Prop} {world : List Place}
  {geo : Geo}

/-- While the store holds answers to calls only, no whole query is found in it. -/
theorem keeps_lookup_ofQuery (hstore : s.store.IsHonest holds)
    {Good : List String → List String → Dataset → Prop} (query searchType : String) :
    Keeps (Resolver.Sound holds Good geo)
      (liftM (s.lookup (.ofQuery query searchType geo))) fun found => found = none := by
  refine .lift fun session hs => ⟨Option.eq_none_iff_forall_ne_some.mpr fun d hd => ?_,
    fun k d hd => hs k d (hstore.after_get hd)⟩
  have hget := hstore.get (Resolver.eq_ok_of_toOption_join hd)
  obtain ⟨included, excluded, -, -, hkey, -⟩ := hs _ d hget
  exact CacheKey.build_ne_ofQuery hkey.symm

/-- Calls that keep an invariant do so when they take turns, as long as it does not depend on the
number of turns. -/
theorem keeps_resolveAll {P : Session σ → Prop} {Q : CallDescriptor → Resolved → Prop}
    {calls : List CallDescriptor} (h : ∀ d ∈ calls, Keeps P (s.resolve d geo) (Q d))
    (htick : ∀ session, P session → P session.tick) :
    Keeps P (s.resolveAll calls geo) (List.Forall₂ Q calls) :=
  Keeps.together h htick

theorem ids_gather (parts : List Resolved) :
    (gather parts).dataset.ids = (Dataset.union (parts.map (·.dataset))).ids :=
  rfl

/-- The answers put together hold what any of them holds. -/
theorem mem_ids_gather {calls : List CallDescriptor} {parts : List Resolved}
    (h : List.Forall₂ (fun d part => part.dataset.IsAnswer world d.included d.excluded)
      calls parts) (id : String) :
    id ∈ (gather parts).dataset.ids ↔ ∃ d ∈ calls, Answered world d.included d.excluded id := by
  rw [ids_gather, Dataset.mem_ids_union]
  induction h with
  | nil => simp
  | @cons d part calls parts hd _ ih =>
    rw [List.map_cons, List.exists_mem_cons_iff, List.exists_mem_cons_iff, hd id, ih]

/-- A query that is not stored is answered by its calls. -/
theorem run_searchDataset_of_miss {query : String} {type : SearchType}
    {calls : List CallDescriptor} (hplan : s.planCalls query type = .ok calls)
    {session session' : Session σ}
    (hmiss : (s.lookup (.ofQuery query type.name geo)).run session = (none, session')) :
    ((s.searchDataset query type geo).run session).1 =
      .ok (gather ((s.resolveAll calls geo).run session').1) := by
  rw [searchDataset, Process.run_bind, Process.run_lift, hmiss]
  simp only [hplan]
  rw [Process.run_bind]
  rfl

/-- A search whose calls are planned, in a world: the places that some call answers, each
once. -/
theorem ids_searchDataset_of_plan (hstore : s.store.IsHonest holds)
    (hserves : s.transport.Serves world) (hnodup : (world.map Place.id).Nodup)
    {query : String} {type : SearchType} {calls : List CallDescriptor}
    (hplan : s.planCalls query type = .ok calls)
    (hcalls : ∀ d ∈ calls, d.kind = .category ∧ ∀ t, d.mentions t = true → CacheKey.IsPlain t)
    {session : Session σ} (hs : Resolver.Sound holds (Dataset.IsAnswer world) geo session) :
    ∃ answer, ((s.searchDataset query type geo).run session).1 = .ok answer ∧
      answer.dataset.ids.Nodup ∧
        ∀ id, id ∈ answer.dataset.ids ↔ ∃ d ∈ calls, Answered world d.included d.excluded id := by
  have hresolve : ∀ d ∈ calls, Keeps (Resolver.Sound holds (Dataset.IsAnswer world) geo)
      (s.resolve d geo) fun part => part.dataset.IsAnswer world d.included d.excluded := by
    intro d hd
    obtain ⟨hkind, hplain⟩ := hcalls d hd
    have hi : ∀ t ∈ d.included, CacheKey.IsPlain t := fun t ht =>
      hplain t (by simp [CallDescriptor.mentions, ht])
    have he : ∀ t ∈ d.excluded, CacheKey.IsPlain t := fun t ht =>
      hplain t (by simp [CallDescriptor.mentions, ht])
    exact Resolver.keeps_resolve_of_sound hstore (Resolver.judges_of_serves hserves hnodup) hkind
      hi he
  obtain ⟨hmiss, hs'⟩ := (keeps_lookup_ofQuery hstore query type.name).run hs
  obtain ⟨hparts, -⟩ := (keeps_resolveAll hresolve fun _ => id).run hs'
  exact ⟨_, run_searchDataset_of_miss hplan (Prod.ext hmiss rfl), Dataset.nodup_ids_union _,
    mem_ids_gather hparts⟩

end Searcher

/-! ## Searches for categories -/

/-- Whether the types of a place make an expression over categories true. -/
def Place.Satisfies (p : Place) (e : Expr) : Prop :=
  e.eval (fun t => p.types.contains t.text) = true

/-- Whether a place has, for some clause, one of the included categories, if there are any, and
none of the excluded ones. -/
def Place.IsTaken (p : Place) (cs : List Clause) : Prop :=
  ∃ c ∈ cs, (Optimize.plainCall .category c).answers p.types = true

/-- A place that satisfies an expression is taken by its clauses. -/
theorem Place.Satisfies.isTaken {limits : Limits} {query : String} {e : Expr}
    {cs : List Clause} (hparse : parse query = .ok e) (hcompile : compile limits query = .ok cs)
    {p : Place} (h : p.Satisfies e) : p.IsTaken cs := by
  rw [compile, hparse] at hcompile
  rw [Satisfies, ← evalAny_compileExpr hcompile, Clause.evalAny, List.any_eq_true] at h
  obtain ⟨c, hc, hholds⟩ := h
  exact ⟨c, hc, Optimize.answers_plainCall_of_eval hholds⟩

/-- Clauses that include one category at most take only the places that satisfy the
expression. -/
theorem Place.IsTaken.satisfies {limits : Limits} {query : String} {e : Expr}
    {cs : List Clause} (hparse : parse query = .ok e) (hcompile : compile limits query = .ok cs)
    (hcs : ∀ c ∈ cs, c.included.length ≤ 1) {p : Place} (h : p.IsTaken cs) : p.Satisfies e := by
  rw [compile, hparse] at hcompile
  obtain ⟨c, hc, hans⟩ := h
  rw [Satisfies, ← evalAny_compileExpr hcompile, Clause.evalAny, List.any_eq_true]
  exact ⟨c, hc, Optimize.eval_of_answers_plainCall (hcs c hc) hans⟩

namespace Searcher

variable {s : Searcher σ} {holds : σ → CacheKey → Dataset → Prop} {world : List Place}

/-- A search for categories returns the places that the clauses of the query take, each
once. -/
theorem ids_searchDataset (hstore : s.store.IsHonest holds)
    (hserves : s.transport.Serves world) (hnodup : (world.map Place.id).Nodup)
    {query : String} {e : Expr} {cs : List Clause} (hparse : parse query = .ok e)
    (hkind : ∀ t ∈ e.terms, t.kind = .category) (hcompile : compile s.limits query = .ok cs)
    {geo : Geo} {session : Session σ}
    (hs : Resolver.Sound holds (Dataset.IsAnswer world) geo session) :
    ∃ answer, ((s.searchDataset query .categories geo).run session).1 = .ok answer ∧
      answer.dataset.ids.Nodup ∧
        ∀ id, id ∈ answer.dataset.ids ↔ ∃ p ∈ world, p.id = id ∧ p.IsTaken cs := by
  have hterms : ∀ c ∈ cs, ∀ t ∈ c.terms, t ∈ e.terms := fun c hc t ht =>
    mem_terms_of_mem_compile hparse hcompile hc ht
  have hclauses : ∀ c ∈ cs, c.kind = .category := fun c hc =>
    Clause.kind_of_categories fun t ht => hkind t (hterms c hc t ht)
  have hcalls : ∀ d ∈ optimize cs (some s.popularity),
      d.kind = .category ∧ ∀ t, d.mentions t = true → CacheKey.IsPlain t := by
    intro d hd
    obtain ⟨hcategory, hmentions⟩ := of_mem_optimize hclauses hd
    refine ⟨hcategory, fun t ht => ?_⟩
    obtain ⟨c, hc, u, hu, rfl⟩ := hmentions t ht
    have hmem := hterms c hc u hu
    exact isPlain_of_mem_terms hparse hmem (hkind u hmem)
  obtain ⟨answer, hanswer, hnodup', hids⟩ := ids_searchDataset_of_plan hstore hserves hnodup
    (planCalls_of_categories hparse hkind hcompile) hcalls hs
  refine ⟨answer, hanswer, hnodup', fun id => (hids id).trans ?_⟩
  have htaken : ∀ p : Place, p.IsTaken cs ↔
      ∃ d ∈ optimize cs (some s.popularity), d.answers p.types = true := by
    intro p
    have hany := any_answers_optimize hclauses (some s.popularity) p.types
    rw [Place.IsTaken, ← List.any_eq_true, ← hany, List.any_eq_true]
  simp only [htaken]
  constructor
  · rintro ⟨d, hd, p, hp, hid, hans⟩
    exact ⟨p, hp, hid, d, hd, hans⟩
  · rintro ⟨p, hp, hid, d, hd, hans⟩
    exact ⟨d, hd, p, hp, hid, hans⟩

/-- If every clause includes one category at most, the places returned are those that satisfy
the query. -/
theorem ids_searchDataset_of_single (hstore : s.store.IsHonest holds)
    (hserves : s.transport.Serves world) (hnodup : (world.map Place.id).Nodup)
    {query : String} {e : Expr} {cs : List Clause} (hparse : parse query = .ok e)
    (hkind : ∀ t ∈ e.terms, t.kind = .category) (hcompile : compile s.limits query = .ok cs)
    (hcs : ∀ c ∈ cs, c.included.length ≤ 1) {geo : Geo} {session : Session σ}
    (hs : Resolver.Sound holds (Dataset.IsAnswer world) geo session) :
    ∃ answer, ((s.searchDataset query .categories geo).run session).1 = .ok answer ∧
      ∀ id, id ∈ answer.dataset.ids ↔ ∃ p ∈ world, p.id = id ∧ p.Satisfies e := by
  obtain ⟨answer, hanswer, -, hids⟩ :=
    ids_searchDataset hstore hserves hnodup hparse hkind hcompile hs
  have htaken : ∀ p : Place, p.IsTaken cs ↔ p.Satisfies e := fun _ =>
    ⟨fun h => h.satisfies hparse hcompile hcs, fun h => h.isTaken hparse hcompile⟩
  simp only [htaken] at hids
  exact ⟨answer, hanswer, hids⟩

/-- A search for categories on an empty store returns the places that the clauses of the query
take, each once.  No place that satisfies the query is missed, and the answer is exact iff every
place of the world that is taken satisfies the query. -/
theorem searchDataset_exact_iff (hstore : s.store.IsHonest holds)
    (hserves : s.transport.Serves world) (hnodup : (world.map Place.id).Nodup)
    {query : String} {e : Expr} {cs : List Clause} (hparse : parse query = .ok e)
    (hkind : ∀ t ∈ e.terms, t.kind = .category) (hcompile : compile s.limits query = .ok cs)
    (geo : Geo) {session : Session σ} (hempty : ∀ k d, ¬holds session.store k d) :
    ∃ answer, ((s.searchDataset query .categories geo).run session).1 = .ok answer ∧
      answer.dataset.ids.Nodup ∧
      (∀ id, id ∈ answer.dataset.ids ↔ ∃ p ∈ world, p.id = id ∧ p.IsTaken cs) ∧
      (∀ p ∈ world, p.Satisfies e → p.id ∈ answer.dataset.ids) ∧
      ((∀ id, id ∈ answer.dataset.ids ↔ ∃ p ∈ world, p.id = id ∧ p.Satisfies e) ↔
        ∀ p ∈ world, p.IsTaken cs → p.Satisfies e) := by
  have hs : Resolver.Sound holds (Dataset.IsAnswer world) geo session := fun k d hd =>
    absurd hd (hempty k d)
  obtain ⟨answer, hanswer, hnodup', hids⟩ :=
    ids_searchDataset hstore hserves hnodup hparse hkind hcompile hs
  have hfound : ∀ p ∈ world, p.Satisfies e → p.id ∈ answer.dataset.ids := fun p hp h =>
    (hids p.id).mpr ⟨p, hp, rfl, h.isTaken hparse hcompile⟩
  refine ⟨answer, hanswer, hnodup', hids, hfound, fun hexact p hp htaken => ?_, fun htaken id => ?_⟩
  · obtain ⟨q, hq, hid, hsatisfies⟩ := (hexact p.id).mp ((hids p.id).mpr ⟨p, hp, rfl, htaken⟩)
    obtain rfl := eq_of_id_eq hnodup hq hp hid
    exact hsatisfies
  · rw [hids id]
    constructor
    · rintro ⟨p, hp, hid, h⟩
      exact ⟨p, hp, hid, htaken p hp h⟩
    · rintro ⟨p, hp, hid, h⟩
      exact ⟨p, hp, hid, h.isTaken hparse hcompile⟩

/-- Of three places, all with a category of a conjunction of two and one with both, all are
returned. -/
theorem searchDataset_exact_iff_of_conjunction :
    let world : List Place :=
      [⟨"rb", ["restaurant", "bar"]⟩, ⟨"r", ["restaurant"]⟩, ⟨"b", ["bar"]⟩]
    let query := "restaurant AND bar"
    let e : Expr := .and [.atom (.category "restaurant"), .atom (.category "bar")]
    let cs : List Clause := [⟨[.category "bar", .category "restaurant"], []⟩]
    let s : Searcher (Table Dataset) :=
      { transport := .ofWorld world, policy := {}, store := .inMemory }
    let session : Session (Table Dataset) := { store := [] }
    (world.map Place.id).Nodup ∧ parse query = .ok e ∧
      (∀ t ∈ e.terms, t.kind = .category) ∧ compile s.limits query = .ok cs ∧
      ∀ geo, ∃ answer, ((s.searchDataset query .categories geo).run session).1 = .ok answer ∧
        (∀ p ∈ world, p.id ∈ answer.dataset.ids) ∧
        ¬∀ id, id ∈ answer.dataset.ids ↔ ∃ p ∈ world, p.id = id ∧ p.Satisfies e := by
  intro world query e cs s session
  have hnodup : (world.map Place.id).Nodup := by decide
  have hparse : parse "restaurant AND bar" =
      .ok (.and [.atom (.category "restaurant"), .atom (.category "bar")]) := rfl
  have hkind : ∀ t ∈ e.terms, t.kind = .category := by decide
  have hcompile : compile {} "restaurant AND bar" =
      .ok [⟨[.category "bar", .category "restaurant"], []⟩] := rfl
  have htaken : ∀ p ∈ world, p.IsTaken cs := by
    intro p hp
    refine ⟨_, List.mem_singleton_self _, ?_⟩
    revert p
    decide
  have hpartial : ¬Place.Satisfies ⟨"r", ["restaurant"]⟩ e := by
    unfold Place.Satisfies
    decide
  have hempty : ∀ (k : CacheKey) (d : Dataset), ¬session.store.get? k.canonical = some d := by
    simp [session]
  refine ⟨hnodup, hparse, hkind, hcompile, fun geo => ?_⟩
  obtain ⟨answer, hanswer, -, hids, -, hexact⟩ :=
    searchDataset_exact_iff (s := s) DatasetStore.isHonest_inMemory
      (Transport.serves_ofWorld world) hnodup hparse hkind hcompile geo hempty
  refine ⟨answer, hanswer, fun p hp => (hids p.id).mpr ⟨p, hp, rfl, htaken p hp⟩, fun h => ?_⟩
  have hr : ⟨"r", ["restaurant"]⟩ ∈ world := List.mem_cons_of_mem _ List.mem_cons_self
  exact hpartial (hexact.mp h _ hr (htaken _ hr))

end Searcher

end PlaceSearch
