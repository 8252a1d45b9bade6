import PlaceSearch.Proofs.Cache.Accounts
import PlaceSearch.Search

/-!
# Only whole answers are stored

A search that fails in part still answers, with what it has, but nothing of this may answer a later
search.  Whatever the provider does, whatever is resolved and searched for one after the other, and
whatever schedule the calls of a search follow, behind everything that is stored stand calls that
had success and left nothing out.  A search during which some call did not end so is not stored
under the key of its query.
-/

namespace PlaceSearch

variable {σ : Type}

/-- Something that is resolved, or searched for. -/
inductive CacheUse where
  | resolve (d : CallDescriptor) (geo : Geo)
  | search (query : String) (type : SearchType) (geo : Geo)

/-- The session after some uses, one after the other. -/
def Searcher.afterUses (s : Searcher σ) (session : Session σ) (uses : List CacheUse) : Session σ :=
  uses.foldl (fun session use =>
    match use with
    | .resolve d geo => ((s.resolve d geo).run session).2
    | .search query type geo => ((s.searchDataset query type geo).run session).2) session

/-- The number of turns goes up. -/
def Ledger.tick (ledger : Ledger σ) : Ledger σ :=
  { ledger with session := ledger.session.tick }

namespace Traced

variable (s : Searcher σ)

/-- The answers to some calls that take turns, by the schedule for those without a ledger. -/
def resolveAll (descriptors : List CallDescriptor) (geo : Geo) :
    Process (Ledger σ) (List Sourced) :=
  (Turns.together (descriptors.map fun d => resolve s.toResolver d geo)).play
    (fun ledger due => s.schedule ledger.session.turns due) Ledger.tick

/-- The dataset of a query, with the calls behind it. -/
def searchDataset (query : String) (type : SearchType) (geo : Geo) :
    Process (Ledger σ) (Except Error Sourced) := do
  let key := CacheKey.ofQuery query type.name geo
  match ← lookup s.toResolver key with
  | some (d, calls) => return .ok ⟨.ofCached d, calls⟩
  | none =>
    match s.planCalls query type with
    | .error e => return .error e
    | .ok descriptors =>
      let parts ← resolveAll s descriptors geo
      let sourced : Sourced :=
        ⟨Searcher.gather (parts.map (·.answer)), parts.flatMap (·.calls)⟩
      keepWhole s.toResolver key sourced
      return .ok sourced

/-- The ledger after some uses, one after the other. -/
def afterUses (ledger : Ledger σ) (uses : List CacheUse) : Ledger σ :=
  uses.foldl (fun ledger use =>
    match use with
    | .resolve d geo => ((resolve s.toResolver d geo).run ledger).2
    | .search query type geo => ((searchDataset s query type geo).run ledger).2) ledger

/-! ## The ledger takes no part -/

theorem covers_resolveAll (descriptors : List CallDescriptor) (geo : Geo) :
    (resolveAll s descriptors geo).Covers Ledger.session (List.map (·.answer))
      (s.resolveAll descriptors geo) := by
  have htick : ∀ ledger : Ledger σ, ledger.tick.session = ledger.session.tick := fun _ => rfl
  exact (Turns.Covers.together fun d _ => covers_resolve s.toResolver d geo).play
    (fun session due => s.schedule session.turns due) htick

/-- A search finds its answer in the same way without the ledger. -/
theorem covers_searchDataset (query : String) (type : SearchType) (geo : Geo) :
    (searchDataset s query type geo).Covers Ledger.session (Except.map (·.answer))
      (s.searchDataset query type geo) := by
  rw [searchDataset, Searcher.searchDataset]
  refine (covers_lookup s.toResolver _).bind fun found => ?_
  cases found with
  | some found => exact .pure rfl
  | none =>
    simp only [Option.map_none]
    cases s.planCalls query type with
    | error e => exact .pure rfl
    | ok descriptors =>
      refine (covers_resolveAll s descriptors geo).bind fun parts => ?_
      exact (covers_keepWhole s.toResolver _ _).bind fun _ => .pure rfl

theorem session_afterUses (uses : List CacheUse) (ledger : Ledger σ) :
    (afterUses s ledger uses).session = s.afterUses ledger.session uses := by
  induction uses generalizing ledger with
  | nil => rfl
  | cons use uses ih =>
    rw [afterUses, Searcher.afterUses, List.foldl_cons, List.foldl_cons, ← afterUses,
      ← Searcher.afterUses, ih]
    cases use with
    | resolve d geo =>
      exact congrArg (s.afterUses · uses)
        (congrArg Prod.snd ((covers_resolve s.toResolver d geo).run ledger)).symm
    | search query type geo =>
      exact congrArg (s.afterUses · uses)
        (congrArg Prod.snd ((covers_searchDataset s query type geo).run ledger)).symm

/-! ## What is filed -/

variable {s} {holds : σ → CacheKey → Dataset → Prop}

/-- The answers to some calls that take turns account for all that was written meanwhile. -/
theorem accounts_resolveAll (hstore : s.store.IsHonest holds) (descriptors : List CallDescriptor)
    (geo : Geo) :
    Logs Ledger.entries (Ledger.IsSound s.toResolver holds) (· = []) (resolveAll s descriptors geo)
      (Accounts s.toResolver) := by
  have htick : ∀ ledger : Ledger σ, ledger.IsSound s.toResolver holds →
      ledger.tick.IsSound s.toResolver holds := fun ledger =>
    Ledger.isOfFiles_isSound _ _ ledger _ rfl rfl
  refine (Logs.together (fun d _ => accounts_resolve hstore d geo) htick fun _ => rfl).weaken
    (fun _ => id) ?_
  rintro _ own ⟨ends, rfl, hperm, hends⟩
  exact .of_forall₂ hperm hends

/-- The answer to a search accounts for all calls that were made for it, and it is filed under the
key of the query only if all of them were whole. -/
theorem accounts_searchDataset (hstore : s.store.IsHonest holds) (query : String)
    (type : SearchType) (geo : Geo) :
    Logs Ledger.entries (Ledger.IsSound s.toResolver holds) (· = [])
      (searchDataset s query type geo) fun _ own =>
        ∀ f, .filed f ∈ own → f.key = .ofQuery query type.name geo →
          ∀ c, .made c ∈ own → c.IsWhole := by
  rw [searchDataset]
  refine (accounts_lookup hstore _).bind fun found => ?_
  cases found with
  | some found =>
    refine .pure ?_
    rintro _ ⟨rfl, -⟩
    simp
  | none =>
    cases s.planCalls query type with
    | error e =>
      refine .pure ?_
      rintro _ ⟨rfl, -⟩
      simp
    | ok descriptors =>
      refine ((accounts_resolveAll hstore descriptors geo).weaken (fun _ h => h.1)
        fun _ _ => id).bind fun parts own hparts => ?_
      have hsourced := hparts.combine (Dataset.union ((parts.map (·.answer)).map (·.dataset)))
        ((parts.map (·.answer)).findSome? (·.nextCursor))
      have htrue := hsourced.flags _ (List.mem_singleton_self _)
      -- The parts are filed under keys of calls.
      have hnotOwn : ∀ f, .filed f ∈ own → f.key ≠ .ofQuery query type.name geo := by
        intro f hf hkey
        obtain ⟨kind, geo', included, excluded, hcall⟩ := hparts.keys f hf
        exact CacheKey.build_ne_ofQuery (hcall.symm.trans hkey)
      refine (accounts_keepWhole (F := (· = own)) hstore _ htrue).bind
        (fun _ => .pure ?_) own rfl
      rintro own' (rfl | ⟨hwhole, _, rfl, rfl⟩) f hf hkey c hc
      · exact absurd hkey (hnotOwn f hf)
      · obtain ⟨part, hpart, hmem⟩ := hsourced.made c (by simpa using hc)
        obtain rfl := List.mem_singleton.mp hpart
        exact hwhole c hmem

theorem isSound_afterUses (hstore : s.store.IsHonest holds) (uses : List CacheUse)
    {ledger : Ledger σ} (h : ledger.IsSound s.toResolver holds) :
    (afterUses s ledger uses).IsSound s.toResolver holds := by
  induction uses generalizing ledger with
  | nil => exact h
  | cons use uses ih =>
    rw [afterUses, List.foldl_cons, ← afterUses]
    cases use with
    | resolve d geo => exact ih ((accounts_resolve hstore d geo).run rfl h).1
    | search query type geo => exact ih ((accounts_searchDataset hstore query type geo).run rfl h).1

end Traced

/-- Whatever the provider does, and whatever is resolved and searched for from an empty store on,
everything that is stored was filed, and behind it stand calls of the provider that had success and
left nothing out: none was answered in the older shape to a request of which this leaves out an
included type.  Nothing stored has the id of a stand-in.  A search during which some call did not
end so is not filed under the key of its query.  If the store holds on to all that was ever written
to it, this is about every write.  The calls of a search may take turns by any schedule. -/
theorem Searcher.stored_whole (s : Searcher σ) {holds : σ → CacheKey → Dataset → Prop}
    (hstore : s.store.IsHonest holds) (start : Session σ)
    (hempty : ∀ key d, ¬holds start.store key d) (uses : List CacheUse) :
    let ledger := Traced.afterUses s { session := start } uses
    ledger.session = s.afterUses start uses ∧
      (∀ key d, holds (s.afterUses start uses).store key d →
        (∃ f ∈ ledger.filings, f.key = key ∧ f.dataset = d) ∧
        ∀ p ∈ d.features, p.id? ≠ some "failed") ∧
      (∀ f ∈ ledger.filings, ∀ c ∈ f.calls, c.IsMadeBy s.toResolver ∧
        c.outcome.failed = false ∧ c.outcome.complete = true ∧
        (c.outcome.usedLegacy = true → c.request.legacyDropsIncluded = false)) ∧
      ∀ query type geo,
        (s.searchDataset query type geo).run (s.afterUses start uses) =
          (((Traced.searchDataset s query type geo).run ledger).1.map (·.answer),
            ((Traced.searchDataset s query type geo).run ledger).2.session) ∧
        ∃ made filed,
          ((Traced.searchDataset s query type geo).run ledger).2.calls = made ++ ledger.calls ∧
          ((Traced.searchDataset s query type geo).run ledger).2.filings =
            filed ++ ledger.filings ∧
          ((∃ c ∈ made, ¬c.IsWhole) → ∀ f ∈ filed, f.key ≠ .ofQuery query type.name geo) := by
  intro ledger
  have hsession : ledger.session = s.afterUses start uses :=
    Traced.session_afterUses s uses { session := start }
  have hstart : Ledger.IsSound s.toResolver holds { session := start } :=
    ⟨nofun, nofun, fun key d hd => absurd hd (hempty key d)⟩
  have hsound : ledger.IsSound s.toResolver holds :=
    Traced.isSound_afterUses hstore uses hstart
  refine ⟨hsession, fun key d hd => ?_, fun f hf c hc => ?_, fun query type geo => ⟨?_, ?_⟩⟩
  · rw [← hsession] at hd
    obtain ⟨f, hf, rfl, rfl⟩ := hsound.held key d hd
    refine ⟨⟨f, hf, rfl, rfl⟩, fun p hp hfailed => ?_⟩
    have hunmarked := hsound.unmarked f hf
    rw [Dataset.isDegraded, List.any_eq_false] at hunmarked
    exact hunmarked p hp (by rw [Feature.isFailed, hfailed]; rfl)
  · obtain ⟨hmade, hsucceeded, hcomplete⟩ := hsound.whole f hf c hc
    refine ⟨hmade, hsucceeded, hcomplete, fun hlegacy => ?_⟩
    simpa [hmade.complete_eq, hlegacy] using hcomplete
  · rw [← hsession]
    exact (Traced.covers_searchDataset s query type geo).run ledger
  · obtain ⟨-, own, hentries, hwhole⟩ :=
      (Traced.accounts_searchDataset hstore query type geo).run rfl hsound
    obtain ⟨made, filed, hcalls, hfilings, hmade, hfiled⟩ := Ledger.exists_of_entries_eq hentries
    refine ⟨made, filed, hcalls, hfilings, fun ⟨c, hc, hnot⟩ f hf hkey => hnot ?_⟩
    exact hwhole f ((hfiled f).mp hf) hkey c ((hmade c).mp hc)

/-- Of two phrases the provider answers one and fails for the other: the answer to the first one is
all that is stored.  The same search made again calls for the other phrase only, fails again, and is
not filed. -/
theorem Searcher.stored_whole_of_failing_phrase :
    let transport : Transport := fun _ r =>
      match r with
      | .text _ "a" _ => .answered 200 (.obj [("places", .arr [.obj [("id", .str "x")]])])
      | _ => .lost "no answer"
    let s : Searcher (Table Dataset) :=
      { transport, policy := { maxRetries := 0 }, store := .inMemory }
    let holds (t : Table Dataset) (k : CacheKey) (d : Dataset) : Prop :=
      t.get? k.canonical = some d
    let geo : Geo := .ofCircle ⟨⟨59.33, 18.06⟩, 1500.0⟩
    let start : Session (Table Dataset) := { store := [] }
    let uses : List CacheUse := [.search "@a@ AND NOT @b@" .phrases geo]
    s.store.IsHonest holds ∧ (∀ key d, ¬holds start.store key d) ∧
      (s.afterUses start uses).store.map (fun e => (e.1, e.2.ids)) =
        [("text|59.330000,18.060000|1500.0|+a|-|", ["x"])] ∧
      (∀ key d, holds (s.afterUses start uses).store key d →
        (∃ f ∈ (Traced.afterUses s { session := start } uses).filings,
            f.key = key ∧ f.dataset = d) ∧
          ∀ p ∈ d.features, p.id? ≠ some "failed") ∧
      ∃ made filed,
        ((Traced.searchDataset s "@a@ AND NOT @b@" .phrases geo).run
          (Traced.afterUses s { session := start } uses)).2.calls =
            made ++ (Traced.afterUses s { session := start } uses).calls ∧
        (∃ c ∈ made, ¬c.IsWhole) ∧
        ((Traced.searchDataset s "@a@ AND NOT @b@" .phrases geo).run
          (Traced.afterUses s { session := start } uses)).2.filings =
            filed ++ (Traced.afterUses s { session := start } uses).filings ∧
        ∀ f ∈ filed, f.key ≠ .ofQuery "@a@ AND NOT @b@" SearchType.phrases.name geo := by
  intro transport s holds geo start uses
  have hempty : ∀ key d, ¬holds start.store key d := by
    intro key d h
    cases h
  have hstored : (s.afterUses start uses).store.map (fun e => (e.1, e.2.ids)) =
      [("text|59.330000,18.060000|1500.0|+a|-|", ["x"])] := by decide +kernel
  have hcount : ((Traced.searchDataset s "@a@ AND NOT @b@" .phrases geo).run
      (Traced.afterUses s { session := start } uses)).2.calls.countP (fun c => !decide c.IsWhole) =
        (Traced.afterUses s { session := start } uses).calls.countP
          (fun c => !decide c.IsWhole) + 1 := by decide +kernel
  obtain ⟨-, hwhole, -, hsearch⟩ :=
    s.stored_whole DatasetStore.isHonest_inMemory start hempty uses
  obtain ⟨-, made, filed, hmade, hfiled, hkeys⟩ := hsearch "@a@ AND NOT @b@" .phrases geo
  have hsplit := congrArg (List.countP fun c => !decide c.IsWhole) hmade
  have hone := hsplit.symm.trans hcount
  rw [List.countP_append, Nat.add_comm, Nat.add_left_cancel_iff] at hone
  have hpartial : ∃ c ∈ made, ¬c.IsWhole := by
    have hpos : 0 < made.countP fun c => !decide c.IsWhole := by
      rw [hone]
      exact Nat.zero_lt_one
    obtain ⟨c, hc, hnot⟩ := List.countP_pos_iff.mp hpos
    exact ⟨c, hc, by simpa using hnot⟩
  refine ⟨DatasetStore.isHonest_inMemory, hempty, hstored, hwhole, made, filed, hmade, hpartial,
    hfiled, ?_⟩
  exact hkeys hpartial

end PlaceSearch
