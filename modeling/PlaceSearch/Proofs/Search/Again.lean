import PlaceSearch.Proofs.Cache.Steady
import PlaceSearch.Proofs.Search.Halves
import PlaceSearch.Proofs.Search.Whole

/-!
# Searching again

In a store in memory that begins empty a key that was written by one search is never written by a
later one, whatever is searched for and whatever the provider does.  So a search that was stored is
answered from the store ever after, with the dataset and the cursor that it had the first time, and
nothing is sent for it.

Within one search it is different.  Its calls are resolved together, and two of them may need the
same phrase, find nothing for it, and both ask the provider, which need not answer twice in the same
way.  Then two datasets are written under the key of this phrase, and the last one stays.  A key for
which this happens always belongs to two calls of the search.
-/

namespace PlaceSearch

/-- A search for the dataset of a query at a place. -/
structure DatasetSearch where
  query : String
  type : SearchType
  geo : Geo

namespace DatasetSearch

/-- The search as a use of the store. -/
def use (q : DatasetSearch) : CacheUse :=
  .search q.query q.type q.geo

/-- The key of the whole query. -/
def key (q : DatasetSearch) : CacheKey :=
  .ofQuery q.query q.type.name q.geo

end DatasetSearch

/-- Something may be filed under the key for two of the calls. -/
def CallDescriptor.Share (calls : List CallDescriptor) (geo : Geo) (key : CacheKey) : Prop :=
  ∃ d d', [d, d'].Sublist calls ∧ key ∈ d.keys geo ∧ key ∈ d'.keys geo

/-- The calls of a plan are proper ones: the terms of a query are not empty, and those of a clause
are distinct. -/
theorem Searcher.isProper_of_mem_planCalls {σ : Type} {s : Searcher σ} {query : String}
    {type : SearchType} {calls : List CallDescriptor} (hplan : s.planCalls query type = .ok calls)
    {d : CallDescriptor} (hd : d ∈ calls) : d.IsProper := by
  obtain ⟨e, hparse⟩ := exists_parse_of_planCalls hplan
  obtain ⟨-, htext⟩ := of_mem_planCalls hparse hplan hd
  exact ⟨fun hkind => (htext hkind).2.1,
    fun hkind t ht => text_ne_empty_of_mem_terms hparse ((htext hkind).2.2 t ht)⟩

/-! ## What a search files -/

section Files

variable {base : Table Dataset} {geo : Geo} {f f' : Filing}

/-- What was filed while some calls took turns was filed for one of them. -/
theorem exists_of_forall₂_files {calls : List CallDescriptor} {ends : List (Sourced × List Entry)}
    (h : List.Forall₂ (fun d e => Files base (d.keys geo) e.2) calls ends)
    (hf : .filed f ∈ ends.flatMap (·.2)) :
    base.get? f.key.canonical = none ∧ ∃ d ∈ calls, f.key ∈ d.keys geo := by
  induction h with
  | nil => cases hf
  | cons hd _ ih =>
    rcases List.mem_append.mp hf with hf | hf
    · exact ⟨hd.absent f hf, _, List.mem_cons_self, hd.keys f hf⟩
    · obtain ⟨habsent, d, hmem, hkey⟩ := ih hf
      exact ⟨habsent, d, List.mem_cons_of_mem _ hmem, hkey⟩

/-- Two datasets under one key are filed for two calls. -/
theorem dataset_eq_or_share {calls : List CallDescriptor} {ends : List (Sourced × List Entry)}
    (h : List.Forall₂ (fun d e => Files base (d.keys geo) e.2) calls ends)
    (hf : .filed f ∈ ends.flatMap (·.2)) (hf' : .filed f' ∈ ends.flatMap (·.2))
    (hkey : f.key = f'.key) :
    f.dataset = f'.dataset ∨ CallDescriptor.Share calls geo f.key := by
  induction h with
  | nil => cases hf
  | @cons d e calls ends hd hrest ih =>
    have hshare : ∀ {g g' : Filing}, .filed g ∈ e.2 → .filed g' ∈ ends.flatMap (·.2) →
        g.key = g'.key → CallDescriptor.Share (d :: calls) geo g.key := by
      intro g g' hg hg' heq
      obtain ⟨-, d', hd', hkey'⟩ := exists_of_forall₂_files hrest hg'
      exact ⟨d, d', (List.singleton_sublist.mpr hd').cons_cons d, hd.keys g hg, heq ▸ hkey'⟩
    rcases List.mem_append.mp hf with hf | hf <;> rcases List.mem_append.mp hf' with hf' | hf'
    · exact .inl (hd.agree f f' hf hf' hkey)
    · exact .inr (hshare hf hf' hkey)
    · exact .inr (hkey ▸ hshare hf' hf hkey.symm)
    · rcases ih hf hf' with heq | ⟨d₁, d₂, hsub, hkeys⟩
      · exact .inl heq
      · exact .inr ⟨d₁, d₂, hsub.cons d, hkeys⟩

end Files

namespace Traced

variable {s : Searcher (Table Dataset)} {base : Table Dataset}

/-- What a search has filed: nothing under a key that was in use when it began, and two datasets
under one key only if this is a key of two of its calls. -/
structure Settles (s : Searcher (Table Dataset)) (q : DatasetSearch) (base : Table Dataset)
    (own : List Entry) : Prop where
  absent : ∀ f, .filed f ∈ own → base.get? f.key.canonical = none
  shared : ∀ f f', .filed f ∈ own → .filed f' ∈ own → f.key = f'.key → f.dataset ≠ f'.dataset →
    ∃ calls, s.planCalls q.query q.type = .ok calls ∧ CallDescriptor.Share calls q.geo f.key

theorem Settles.nil {q : DatasetSearch} : Settles s q base [] :=
  ⟨nofun, nofun⟩

/-- The answer to the whole query may be filed as well: its key is not one of a call. -/
theorem Settles.cons {q : DatasetSearch} {own : List Entry} (h : Settles s q base own)
    (hkeys : ∀ f, .filed f ∈ own → f.key.IsOfCall) {f : Filing} (hkey : f.key = q.key)
    (habsent : base.get? f.key.canonical = none) : Settles s q base (.filed f :: own) := by
  have hcases : ∀ f', .filed f' ∈ Entry.filed f :: own → f' = f ∨ .filed f' ∈ own := fun f' hf' =>
    (List.mem_cons.mp hf').imp_left Entry.filed.inj
  have hother : ∀ f', .filed f' ∈ own → f'.key ≠ f.key := by
    intro f' hf' heq
    obtain ⟨kind, geo, included, excluded, hcall⟩ := hkeys f' hf'
    exact CacheKey.build_ne_ofQuery (hcall.symm.trans (heq.trans hkey))
  constructor
  · intro f' hf'
    rcases hcases f' hf' with rfl | hf'
    · exact habsent
    · exact h.absent f' hf'
  · intro f₁ f₂ hf₁ hf₂ heq hne
    rcases hcases f₁ hf₁ with rfl | hmem₁ <;> rcases hcases f₂ hf₂ with rfl | hmem₂
    · exact absurd rfl hne
    · exact absurd heq.symm (hother f₂ hmem₂)
    · exact absurd heq (hother f₁ hmem₁)
    · exact h.shared f₁ f₂ hmem₁ hmem₂ heq hne

/-- What the calls of a search file by any schedule. -/
theorem settles_resolveAll (hstore : s.store = .inMemory) (q : DatasetSearch)
    {calls : List CallDescriptor} (hplan : s.planCalls q.query q.type = .ok calls) :
    Logs Ledger.entries (Ledger.HoldsOn base) (· = []) (resolveAll s calls q.geo) fun _ own =>
      Settles s q base own ∧ ∀ f, .filed f ∈ own → f.key.IsOfCall := by
  have htick : ∀ ledger : Ledger (Table Dataset), ledger.HoldsOn base → ledger.tick.HoldsOn base :=
    fun ledger => Ledger.isOfFiles_holdsOn base ledger _ rfl rfl
  refine (Logs.together (fun d hd => files_resolve hstore
    (Searcher.isProper_of_mem_planCalls hplan hd)) htick fun _ => rfl).weaken (fun _ => id) ?_
  rintro _ own ⟨ends, rfl, hperm, hends⟩
  have hmem : ∀ {f}, .filed f ∈ own → .filed f ∈ ends.flatMap (·.2) := hperm.mem_iff.mp
  refine ⟨⟨fun f hf => (exists_of_forall₂_files hends (hmem hf)).1, ?_⟩, fun f hf => ?_⟩
  · intro f f' hf hf' heq hne
    exact ⟨calls, hplan, (dataset_eq_or_share hends (hmem hf) (hmem hf') heq).resolve_left hne⟩
  · obtain ⟨-, d, -, hkey⟩ := exists_of_forall₂_files hends (hmem hf)
    exact d.isOfCall_of_mem_keys hkey

theorem settles_searchDataset (hstore : s.store = .inMemory) (q : DatasetSearch) :
    Logs Ledger.entries (Ledger.HoldsOn base) (· = []) (searchDataset s q.query q.type q.geo)
      fun _ => Settles s q base := by
  rw [searchDataset]
  refine (logs_lookup hstore _).bind fun found => ?_
  cases found with
  | some found => exact .pure fun own h => h.1 ▸ .nil
  | none =>
    cases hplan : s.planCalls q.query q.type with
    | error e => exact .pure fun own h => h.1 ▸ .nil
    | ok calls =>
      intro own
      rintro ⟨rfl, hfree⟩
      have habsent := (hfree rfl).absent
      refine (settles_resolveAll hstore q hplan).bind (fun parts => ?_) [] rfl
      refine (logs_keepWhole hstore habsent _).bind fun _ => .pure fun own hown => ?_
      rcases hown with hown | ⟨own, hown, rfl⟩
      · exact hown.1
      · exact hown.1.cons hown.2 rfl habsent

/-- What a search writes, in a ledger of which the store holds what was written last. -/
theorem exists_filed_searchDataset (hstore : s.store = .inMemory) (q : DatasetSearch)
    {ledger : Ledger (Table Dataset)} (h : ledger.HoldsOn base) :
    ((searchDataset s q.query q.type q.geo).run ledger).2.HoldsOn ledger.session.store ∧
      ∃ filed, ((searchDataset s q.query q.type q.geo).run ledger).2.filings =
          filed ++ ledger.filings ∧
        (∀ f ∈ filed, ∀ f' ∈ ledger.filings, f.key ≠ f'.key) ∧
        ∀ f ∈ filed, ∀ f' ∈ filed, f.key = f'.key → f.dataset ≠ f'.dataset →
          ∃ calls, s.planCalls q.query q.type = .ok calls ∧
            CallDescriptor.Share calls q.geo f.key := by
  obtain ⟨hholds, own, hentries, hown⟩ := (settles_searchDataset hstore q).run rfl h.rebase
  obtain ⟨made, filed, -, hfilings, -, hfiled⟩ := Ledger.exists_of_entries_eq hentries
  refine ⟨hholds, filed, hfilings, fun f hf f' hf' heq => ?_, fun f hf f' hf' => ?_⟩
  · obtain ⟨d, hd⟩ := h.exists_held hf'
    have habsent := hown.absent f ((hfiled f).mp hf)
    rw [heq, hd] at habsent
    cases habsent
  · exact hown.shared f f' ((hfiled f).mp hf) ((hfiled f').mp hf')

/-- What is held stays held, whatever is searched for. -/
theorem holdsOn_afterUses (hstore : s.store = .inMemory) (searches : List DatasetSearch)
    {ledger : Ledger (Table Dataset)} (h : ledger.HoldsOn base) :
    (afterUses s ledger (searches.map DatasetSearch.use)).HoldsOn base := by
  induction searches generalizing ledger with
  | nil => exact h
  | cons q searches ih =>
    have hnext := (exists_filed_searchDataset hstore q h).1
    exact ih ⟨fun key d hd => hnext.first key d (h.first key d hd), hnext.last⟩

end Traced

/-! ## The same search again -/

namespace Searcher

variable {s : Searcher (Table Dataset)}

theorem afterUses_append (session : Session (Table Dataset)) (uses more : List CacheUse) :
    s.afterUses session (uses ++ more) = s.afterUses (s.afterUses session uses) more :=
  List.foldl_append

theorem run_lookup_inMemory (hstore : s.store = .inMemory) (key : CacheKey)
    (session : Session (Table Dataset)) :
    (s.lookup key).run session = (session.store.get? key.canonical, session) := by
  obtain ⟨⟨transport, policy, store⟩, limits, popularity, schedule⟩ := s
  subst hstore
  rfl

/-- A search whose answer is held is answered with it, and nothing is sent or written. -/
theorem run_searchDataset_of_held (hstore : s.store = .inMemory) (q : DatasetSearch)
    {session : Session (Table Dataset)} {d : Dataset}
    (hheld : session.store.get? q.key.canonical = some d) :
    (s.searchDataset q.query q.type q.geo).run session = (.ok (.ofCached d), session) := by
  rw [searchDataset, Process.run_bind, Process.run_lift, run_lookup_inMemory hstore,
    ← DatasetSearch.key, hheld]
  rfl

/-- An answer that is whole and holds no stand-in is held under the key of the query after the
search, with its cursor. -/
theorem get?_searchDataset (hstore : s.store = .inMemory) (q : DatasetSearch)
    {session : Session (Table Dataset)} {answer : Resolved}
    (hok : ((s.searchDataset q.query q.type q.geo).run session).1 = .ok answer)
    (hcacheable : answer.cacheable = true) (hunmarked : answer.dataset.isDegraded = false) :
    ((s.searchDataset q.query q.type q.geo).run session).2.store.get? q.key.canonical =
        some answer.dataset ∧ answer.dataset.nextCursor = answer.nextCursor := by
  cases hheld : session.store.get? q.key.canonical with
  | some d =>
    rw [run_searchDataset_of_held hstore q hheld] at hok ⊢
    obtain rfl := Except.ok.inj hok
    exact ⟨hheld, rfl⟩
  | none =>
    rw [searchDataset, Process.run_bind, Process.run_lift, run_lookup_inMemory hstore,
      ← DatasetSearch.key, hheld] at hok ⊢
    cases hplan : s.planCalls q.query q.type with
    | error e =>
      rw [hplan] at hok
      cases hok
    | ok calls =>
      simp only [hplan, Process.run_bind, Process.run_lift, Process.run_pure] at hok ⊢
      obtain rfl := Except.ok.inj hok
      rw [Resolver.run_keepWhole, hcacheable, hunmarked, hstore]
      exact ⟨Table.get?_put_self _ _ _, rfl⟩

/-- In a ledger that begins with an empty store the store holds what was written last. -/
theorem holdsOn_afterUses_of_empty (hstore : s.store = .inMemory)
    {start : Session (Table Dataset)} (hempty : start.store = []) (searches : List DatasetSearch) :
    (Traced.afterUses s { session := start } (searches.map DatasetSearch.use)).HoldsOn
      (s.afterUses start (searches.map DatasetSearch.use)).store := by
  have hstart : Ledger.HoldsOn [] { session := start } := ⟨nofun, fun key => by rw [hempty]; rfl⟩
  have hsession := Traced.session_afterUses s (searches.map DatasetSearch.use) { session := start }
  rw [← hsession]
  exact (Traced.holdsOn_afterUses hstore searches hstart).rebase

/-- What is held stays held, whatever is searched for. -/
theorem get?_afterUses_append (hstore : s.store = .inMemory) {start : Session (Table Dataset)}
    (hempty : start.store = []) (searches more : List DatasetSearch) {key : CacheKey} {d : Dataset}
    (hheld : (s.afterUses start (searches.map DatasetSearch.use)).store.get? key.canonical =
      some d) :
    (s.afterUses start (searches.map DatasetSearch.use ++
      more.map DatasetSearch.use)).store.get? key.canonical = some d := by
  rw [afterUses_append, ← Traced.session_afterUses s _ { session := start },
    ← Traced.session_afterUses]
  have hholds := holdsOn_afterUses_of_empty hstore hempty searches
  exact (Traced.holdsOn_afterUses hstore more hholds).first key d hheld

/-- A store in memory that begins empty holds under every key the last dataset that was written
there, whatever is searched for, one after the other, whatever the provider does and whatever
schedule the calls of a search follow.  No search writes under a key that was written before it
began, so what is held stays held; and it writes two datasets under one key only if two of its own
calls share this key.  So if the answer to a search was whole and held no stand-in, the same search
made again after any others is answered with the same dataset and the same cursor, without a request
and with the session as it was. -/
theorem searchDataset_again (hstore : s.store = .inMemory) (start : Session (Table Dataset))
    (hempty : start.store = []) (searches : List DatasetSearch) :
    let before := searches.map DatasetSearch.use
    let ledger := Traced.afterUses s { session := start } before
    ledger.session = s.afterUses start before ∧
      (∀ key : CacheKey, (s.afterUses start before).store.get? key.canonical =
        (ledger.filings.find? (·.key = key)).map (·.dataset)) ∧
      (∀ q : DatasetSearch,
        let search := (Traced.searchDataset s q.query q.type q.geo).run ledger
        (s.searchDataset q.query q.type q.geo).run (s.afterUses start before) =
            (search.1.map (·.answer), search.2.session) ∧
          ∃ filed, search.2.filings = filed ++ ledger.filings ∧
            (∀ f ∈ filed, ∀ f' ∈ ledger.filings, f.key ≠ f'.key) ∧
            ∀ f ∈ filed, ∀ f' ∈ filed, f.key = f'.key → f.dataset ≠ f'.dataset →
              ∃ calls, s.planCalls q.query q.type = .ok calls ∧
                CallDescriptor.Share calls q.geo f.key) ∧
      ∀ more : List DatasetSearch,
        (∀ (key : CacheKey) d, (s.afterUses start before).store.get? key.canonical = some d →
          (s.afterUses start (before ++ more.map DatasetSearch.use)).store.get? key.canonical =
            some d) ∧
        ∀ (q : DatasetSearch) (answer : Resolved),
          ((s.searchDataset q.query q.type q.geo).run (s.afterUses start before)).1 = .ok answer →
          answer.cacheable = true → "failed" ∉ answer.dataset.ids →
            let after := s.afterUses start (before ++ q.use :: more.map DatasetSearch.use)
            ∃ again, (s.searchDataset q.query q.type q.geo).run after = (.ok again, after) ∧
              again.dataset = answer.dataset ∧ again.nextCursor = answer.nextCursor ∧
              again.apiCalls = 0 := by
  intro before ledger
  have hsession : ledger.session = s.afterUses start before :=
    Traced.session_afterUses s before { session := start }
  have hholds : ledger.HoldsOn (s.afterUses start before).store :=
    holdsOn_afterUses_of_empty hstore hempty searches
  refine ⟨hsession, hsession ▸ hholds.last, fun q => ⟨?_, ?_⟩, fun more => ⟨fun key d hd => ?_, ?_⟩⟩
  · rw [← hsession]
    exact (Traced.covers_searchDataset s q.query q.type q.geo).run ledger
  · exact (Traced.exists_filed_searchDataset hstore q hholds).2
  · exact get?_afterUses_append hstore hempty searches more hd
  · intro q answer hok hcacheable hfailed after
    have hunmarked : answer.dataset.isDegraded = false :=
      Bool.eq_false_iff.mpr (mt Dataset.isDegraded_iff.mp hfailed)
    obtain ⟨hheld, hcursor⟩ := get?_searchDataset hstore q hok hcacheable hunmarked
    have hsearches : (searches ++ [q]).map DatasetSearch.use = before ++ [q.use] :=
      List.map_append
    have hheld' : after.store.get? q.key.canonical = some answer.dataset := by
      have hafter : (s.afterUses start ((searches ++ [q]).map DatasetSearch.use)).store.get?
          q.key.canonical = some answer.dataset := by
        rw [hsearches, afterUses_append]
        exact hheld
      have hstays := get?_afterUses_append hstore hempty (searches ++ [q]) more hafter
      rwa [hsearches, List.append_assoc] at hstays
    exact ⟨_, run_searchDataset_of_held hstore q hheld', rfl, hcursor, rfl⟩

/-- A provider answers its second request with the place `y` and all others with `z`.  A phrase that
is searched for second has `y` and a cursor, and keeps them when it is searched for again, after a
search that makes use of this phrase and of a third one. -/
theorem searchDataset_again_of_changing_provider :
    let transport : Transport := fun sent _ => .answered 200 (.obj
      [("places", .arr [.obj [("id", .str (if sent.length = 1 then "y" else "z"))]]),
        ("nextPageToken", .str "p")])
    let s : Searcher (Table Dataset) := { transport, policy := {}, store := .inMemory }
    let geo : Geo := .ofCircle ⟨⟨59.33, 18.06⟩, 1500.0⟩
    let start : Session (Table Dataset) := { store := [] }
    let q : DatasetSearch := ⟨"@a@", .phrases, geo⟩
    let others : List DatasetSearch := [⟨"@b@", .phrases, geo⟩]
    let more : List DatasetSearch := [⟨"@a@ AND NOT @c@", .both, geo⟩]
    let after :=
      s.afterUses start (others.map DatasetSearch.use ++ q.use :: more.map DatasetSearch.use)
    ∃ again, (s.searchDataset q.query q.type q.geo).run after = (.ok again, after) ∧
      again.dataset.ids = ["y"] ∧ again.nextCursor = some "p" ∧ again.apiCalls = 0 := by
  intro transport s geo start q others more after
  have hanswer : ((s.searchDataset q.query q.type q.geo).run
      (s.afterUses start (others.map DatasetSearch.use))).1.toOption.map
        (fun answer => (answer.dataset.ids, answer.nextCursor, answer.cacheable)) =
          some (["y"], some "p", true) := by decide +kernel
  cases hok : ((s.searchDataset q.query q.type q.geo).run
      (s.afterUses start (others.map DatasetSearch.use))).1 with
  | error e =>
    rw [hok] at hanswer
    cases hanswer
  | ok answer =>
    rw [hok] at hanswer
    obtain ⟨hids, hrest⟩ := Prod.mk.inj (Option.some.inj hanswer)
    obtain ⟨hcursor, hcacheable⟩ := Prod.mk.inj hrest
    obtain ⟨-, -, -, hmore⟩ := searchDataset_again (s := s) rfl start rfl others
    obtain ⟨again, hrun, hdataset, hagain, hcalls⟩ :=
      (hmore more).2 q answer hok hcacheable (by rw [hids]; decide)
    exact ⟨again, hrun, by rw [hdataset, hids], by rw [hagain, hcursor], hcalls⟩

/-- A provider fails at its first request for the phrase `a`, answers the next one with the place
`x` and all later ones with `y`.  Two calls of a search need this phrase.  The first one waits
before it asks again, and the second one finds nothing in the store meanwhile and asks too.  So `x`
is written for the phrase, and then `y`. -/
theorem searchDataset_replaces_shared_phrase :
    let transport : Transport := fun sent r =>
      match r with
      | .text _ "a" _ =>
        match sent.countP (fun r => match r with | .text _ "a" _ => true | _ => false) with
        | 0 => .answered 500 .null
        | 1 => .answered 200 (.obj [("places", .arr [.obj [("id", .str "x")]])])
        | _ => .answered 200 (.obj [("places", .arr [.obj [("id", .str "y")]])])
      | _ => .answered 200 (.obj [("places", .arr [])])
    let s : Searcher (Table Dataset) := { transport, policy := {}, store := .inMemory }
    let geo : Geo := .ofCircle ⟨⟨59.33, 18.06⟩, 1500.0⟩
    let start : Session (Table Dataset) := { store := [] }
    let q : DatasetSearch := ⟨"(@a@ AND @b@) OR (@a@ AND @c@)", .phrases, geo⟩
    let ledger := Traced.afterUses s { session := start } [q.use]
    ledger.session = s.afterUses start [q.use] ∧
      (ledger.filings.filter (·.key = .partialAnswer .text ["a"] geo)).map (·.dataset.ids) =
        [["y"], ["x"]] := by
  intro transport s geo start q ledger
  refine ⟨Traced.session_afterUses s _ _, ?_⟩
  have hplan : s.planCalls q.query q.type =
      .ok [⟨["a", "b"], [], .text⟩, ⟨["a", "c"], [], .text⟩] := by decide +kernel
  change ((((Traced.searchDataset s q.query q.type q.geo).run
    { session := start }).2.filings.filter (·.key = .partialAnswer .text ["a"] geo)).map
      (·.dataset.ids)) = _
  rw [Traced.searchDataset, hplan]
  decide +kernel

end Searcher

end PlaceSearch
