import PlaceSearch.Proofs.Cache.Accounts
import PlaceSearch.Proofs.Cache.PhraseKey
import PlaceSearch.Proofs.Dataset.Ids

/-!
# What is filed for one call

The resolver files under a key only after it has found nothing there.  A store in memory holds on to
what is written, so whatever was held when a search began stays as it was, and the search files
under other keys only.

Between the look and the write other calls of the same search may file under the same key, and then
the last write wins.  One call by itself never files two datasets under one key.  It files for its
phrases first, each time after a look, and then for the search as a whole, under a key that no
phrase has, with one exception: a search for a single phrase and nothing else has the key of this
phrase, so that its answer is written twice.  The second time it is put together from the answer
that was written first, and putting together a single answer changes nothing about it.
-/

namespace PlaceSearch

/-! ## A single phrase put together -/

namespace Dataset

theorem ofFeatures_features (fs : List Feature) :
    ofFeatures (ofFeatures fs).features = ofFeatures fs := by
  have hfresh : fresh ({} : Dataset).ids (ofFeatures fs).features = (ofFeatures fs).features :=
    fresh_eq_self (nodup_ids_ofFeatures fs) (by simp [ids])
  rw [ofFeatures, append, hfresh]
  rfl

/-- A single answer, less nothing, is the same answer, with its property names and its cursor. -/
theorem difference_common_singleton (fs : List Feature) (cursor : Option String) :
    ((common [(ofFeatures fs).withNextCursor cursor]).difference (union [])).withNextCursor cursor =
      (ofFeatures fs).withNextCursor cursor := by
  have hsame : (common [(ofFeatures fs).withNextCursor cursor]).difference (union []) =
      ofFeatures (ofFeatures fs).features := by
    refine congrArg ofFeatures (List.filter_eq_self.mpr fun f _ => ?_)
    cases f.id? <;> rfl
  rw [hsame, ofFeatures_features]

end Dataset

/-- A call as it is planned: a search by text includes no phrase twice, and its phrases are not
empty. -/
structure CallDescriptor.IsProper (d : CallDescriptor) : Prop where
  nodup : d.kind = .text → d.included.Nodup
  nonempty : d.kind = .text → ∀ t, d.mentions t = true → t ≠ ""

/-- The keys under which answers to the phrases of a search by text are filed. -/
def CallDescriptor.phraseKeys (d : CallDescriptor) (geo : Geo) : List CacheKey :=
  match d.kind with
  | .category => []
  | .text =>
    d.included.map (fun phrase => .partialAnswer .text [phrase]
        (if d.included.length = 1 then geo else geo.firstPage)) ++
      d.excluded.map fun phrase => .partialAnswer .text [phrase] geo.firstPage

/-- All keys under which something may be filed for a call. -/
def CallDescriptor.keys (d : CallDescriptor) (geo : Geo) : List CacheKey :=
  .ofDescriptor d geo :: d.phraseKeys geo

theorem CallDescriptor.isOfCall_of_mem_keys {d : CallDescriptor} {geo : Geo} {key : CacheKey}
    (h : key ∈ d.keys geo) : key.IsOfCall := by
  rcases List.mem_cons.mp h with rfl | h
  · exact ⟨d.kind, geo, d.included, d.excluded, rfl⟩
  · unfold phraseKeys at h
    split at h
    · cases h
    · rcases List.mem_append.mp h with h | h
      all_goals
        obtain ⟨phrase, -, rfl⟩ := List.mem_map.mp h
        exact ⟨.text, _, [phrase], [], rfl⟩

/-! ## What is held -/

namespace Ledger

variable {base : Table Dataset} {ledger : Ledger (Table Dataset)} {key : CacheKey}

/-- What was held at first is still held, and under every key the last dataset that was filed
there. -/
structure HoldsOn (base : Table Dataset) (ledger : Ledger (Table Dataset)) : Prop where
  first : ∀ (key : CacheKey) d, base.get? key.canonical = some d →
    ledger.session.store.get? key.canonical = some d
  last : ∀ key : CacheKey, ledger.session.store.get? key.canonical =
    (ledger.filings.find? (·.key = key)).map (·.dataset)

theorem isOfFiles_holdsOn (base : Table Dataset) : IsOfFiles (HoldsOn base) := by
  intro ledger ledger' hstore hfilings h
  constructor
  · rw [hstore]
    exact h.first
  · rw [hstore, hfilings]
    exact h.last

/-- What is held by now may be taken for what was held at first. -/
theorem HoldsOn.rebase (h : ledger.HoldsOn base) : ledger.HoldsOn ledger.session.store :=
  ⟨fun _ _ => id, h.last⟩

/-- Something is held under the key of whatever was filed. -/
theorem HoldsOn.exists_held (h : ledger.HoldsOn base) {f : Filing} (hf : f ∈ ledger.filings) :
    ∃ d, ledger.session.store.get? f.key.canonical = some d := by
  rw [h.last]
  have hsome : (ledger.filings.find? (·.key = f.key)).isSome :=
    List.find?_isSome.mpr ⟨f, hf, decide_eq_true rfl⟩
  obtain ⟨f', hf'⟩ := Option.isSome_iff_exists.mp hsome
  exact ⟨f'.dataset, congrArg (Option.map _) hf'⟩

/-- The ledger after a dataset was filed. -/
def write (ledger : Ledger (Table Dataset)) (f : Filing) : Ledger (Table Dataset) where
  session :=
    { ledger.session with store := ledger.session.store.put f.key.canonical f.dataset }
  entries := .filed f :: ledger.entries

theorem get?_write_self (ledger : Ledger (Table Dataset)) (f : Filing) :
    (ledger.write f).session.store.get? f.key.canonical = some f.dataset :=
  Table.get?_put_self _ _ _

theorem get?_write_of_ne {f : Filing} (h : key ≠ f.key) :
    (ledger.write f).session.store.get? key.canonical =
      ledger.session.store.get? key.canonical :=
  Table.get?_put_of_ne (fun heq => h (congrArg CacheKey.mk heq)) _ _

/-- A dataset may be filed where nothing was held at first. -/
theorem HoldsOn.write (h : ledger.HoldsOn base) {f : Filing}
    (hfree : base.get? f.key.canonical = none) : (ledger.write f).HoldsOn base where
  first key d hd := by
    have hne : key ≠ f.key := by
      rintro rfl
      rw [hfree] at hd
      cases hd
    rw [get?_write_of_ne hne, h.first key d hd]
  last key := by
    have hfilings : (ledger.write f).filings = f :: ledger.filings := rfl
    by_cases hkey : key = f.key
    · subst hkey
      rw [get?_write_self, hfilings]
      simp
    · rw [get?_write_of_ne hkey, hfilings, h.last]
      simp [Ne.symm hkey]

end Ledger

/-- Nothing was held under the key at first, and the process has filed nothing there. -/
structure IsFree (base : Table Dataset) (own : List Entry) (key : CacheKey) : Prop where
  absent : base.get? key.canonical = none
  unused : ∀ f, .filed f ∈ own → f.key ≠ key

/-- What a process has filed: only under the given keys, none of which was in use at first, and
never two datasets under one key. -/
structure Files (base : Table Dataset) (keys : List CacheKey) (own : List Entry) : Prop where
  keys : ∀ f, .filed f ∈ own → f.key ∈ keys
  absent : ∀ f, .filed f ∈ own → base.get? f.key.canonical = none
  agree : ∀ f f', .filed f ∈ own → .filed f' ∈ own → f.key = f'.key → f.dataset = f'.dataset

namespace Files

variable {base : Table Dataset} {keys : List CacheKey} {own : List Entry}

theorem nil : Files base keys [] :=
  ⟨nofun, nofun, nofun⟩

theorem mono {keys' : List CacheKey} (h : Files base keys own) (hsub : keys ⊆ keys') :
    Files base keys' own :=
  ⟨fun f hf => hsub (h.keys f hf), h.absent, h.agree⟩

theorem cons_made (h : Files base keys own) (c : ProviderCall) :
    Files base keys (.made c :: own) := by
  have hown : ∀ f, .filed f ∈ Entry.made c :: own → .filed f ∈ own := fun f hf => by
    simpa using hf
  exact ⟨fun f hf => h.keys f (hown f hf), fun f hf => h.absent f (hown f hf),
    fun f f' hf hf' => h.agree f f' (hown f hf) (hown f' hf')⟩

/-- One more dataset under one of the keys, the same that was filed there before, if any was. -/
theorem cons_filed (h : Files base keys own) {f : Filing} (hkey : f.key ∈ keys)
    (habsent : base.get? f.key.canonical = none)
    (hsame : ∀ f', .filed f' ∈ own → f'.key = f.key → f'.dataset = f.dataset) :
    Files base keys (.filed f :: own) := by
  have hcases : ∀ f', .filed f' ∈ Entry.filed f :: own → f' = f ∨ .filed f' ∈ own := by
    intro f' hf'
    rcases List.mem_cons.mp hf' with heq | hf'
    · exact .inl (Entry.filed.inj heq)
    · exact .inr hf'
  constructor
  · intro f' hf'
    rcases hcases f' hf' with rfl | hf'
    · exact hkey
    · exact h.keys f' hf'
  · intro f' hf'
    rcases hcases f' hf' with rfl | hf'
    · exact habsent
    · exact h.absent f' hf'
  · intro f₁ f₂ hf₁ hf₂ heq
    rcases hcases f₁ hf₁ with rfl | hmem₁ <;> rcases hcases f₂ hf₂ with rfl | hmem₂
    · rfl
    · exact (hsame f₂ hmem₂ heq.symm).symm
    · exact hsame f₁ hmem₁ heq
    · exact h.agree f₁ f₂ hmem₁ hmem₂ heq

end Files

namespace Traced

variable {r : Resolver (Table Dataset)} {base : Table Dataset} {F : List Entry → Prop}
  {key : CacheKey} {geo : Geo} {d : CallDescriptor} {keys : List CacheKey} {own : List Entry}

/-! ## Single acts -/

/-- What is found is what is held, and looking changes nothing. -/
theorem run_lookup_inMemory (hstore : r.store = .inMemory) (key : CacheKey)
    (ledger : Ledger (Table Dataset)) :
    (lookup r key).run ledger =
      ((ledger.session.store.get? key.canonical).map (·, ledger.callsBehind key), ledger) := by
  obtain ⟨transport, policy, store⟩ := r
  subst hstore
  rfl

/-- A key under which nothing is found is free. -/
theorem logs_lookup (hstore : r.store = .inMemory) (key : CacheKey) :
    Logs Ledger.entries (Ledger.HoldsOn base) F (liftM (lookup r key)) fun found own =>
      F own ∧ (found = none → IsFree base own key) := by
  refine .lift fun own ledger hown h hsub => ?_
  rw [run_lookup_inMemory hstore]
  refine ⟨h, [], rfl, hown, fun hnone => ?_⟩
  have hheld := Option.map_eq_none_iff.mp hnone
  refine ⟨Option.eq_none_iff_forall_ne_some.mpr fun d hd => ?_, fun f hf hkey => ?_⟩
  · rw [h.first key d hd] at hheld
    cases hheld
  · obtain ⟨d, hd⟩ := h.exists_held (Ledger.mem_filings.mpr (hsub hf))
    rw [hkey, hheld] at hd
    cases hd

theorem run_keepWhole_inMemory (hstore : r.store = .inMemory) (key : CacheKey) (sourced : Sourced)
    (ledger : Ledger (Table Dataset)) :
    (keepWhole r key sourced).run ledger =
      if sourced.answer.cacheable && !sourced.answer.dataset.isDegraded then
        ((), ledger.write ⟨key, sourced.answer.dataset, sourced.calls⟩)
      else ((), ledger) := by
  rw [run_keepWhole, Resolver.run_keepWhole, hstore]
  split <;> rfl

/-- An answer may be kept under a key under which nothing was held at first. -/
theorem logs_keepWhole (hstore : r.store = .inMemory) (habsent : base.get? key.canonical = none)
    (sourced : Sourced) :
    Logs Ledger.entries (Ledger.HoldsOn base) F (liftM (keepWhole r key sourced)) fun _ own =>
      F own ∨ ∃ own', F own' ∧
        own = .filed ⟨key, sourced.answer.dataset, sourced.calls⟩ :: own' := by
  refine .lift fun own ledger hown h _ => ?_
  rw [run_keepWhole_inMemory hstore]
  split
  · exact ⟨h.write habsent, [_], rfl, .inr ⟨own, hown, rfl⟩⟩
  · exact ⟨h, [], rfl, .inl hown⟩

/-! ## Phrases -/

/-- How a phrase was answered, and what was written for it: nothing, or the call that was made, or
the call and its answer under a key that was free. -/
inductive Fetched (r : Resolver (Table Dataset)) (base : Table Dataset) (key : CacheKey)
    (own : List Entry) : Sourced → List Entry → Prop where
  | found (sourced : Sourced) : Fetched r base key own sourced own
  | made {c : ProviderCall} (hc : c.IsMadeBy r) :
      Fetched r base key own ⟨.ofOutcome c.outcome, [c]⟩ (.made c :: own)
  | kept {c : ProviderCall} (hc : c.IsMadeBy r) (hfree : IsFree base own key) :
      Fetched r base key own ⟨.ofOutcome c.outcome, [c]⟩
        (.filed ⟨key, c.outcome.dataset, [c]⟩ :: .made c :: own)

theorem logs_fetchPhrase (hstore : r.store = .inMemory) (geo : Geo) (phrase : String)
    (own : List Entry) :
    Logs Ledger.entries (Ledger.HoldsOn base) (· = own) (fetchPhrase r geo phrase)
      (Fetched r base (.partialAnswer .text [phrase] geo) own) := by
  rw [fetchPhrase]
  refine (logs_lookup hstore _).bind fun found => ?_
  cases found with
  | some found =>
    refine .pure ?_
    rintro _ ⟨rfl, -⟩
    exact .found _
  | none =>
    refine (logs_call (Ledger.isOfFiles_holdsOn base) _).bind fun c own' => ?_
    rintro ⟨hc, _, ⟨rfl, hfree⟩, rfl⟩
    refine (logs_keepWhole (F := (· = .made c :: _)) hstore (hfree rfl).absent _).bind
      (fun _ => .pure ?_) _ rfl
    rintro _ (rfl | ⟨_, rfl, rfl⟩)
    · exact .made hc
    · exact .kept hc (hfree rfl)

theorem Fetched.files {sourced : Sourced} {own' : List Entry}
    (h : Fetched r base key own sourced own') (hown : Files base keys own) (hkey : key ∈ keys) :
    Files base keys own' := by
  cases h with
  | found => exact hown
  | made => exact hown.cons_made _
  | kept _ hfree =>
    refine (hown.cons_made _).cons_filed hkey hfree.absent fun f' hf' heq => ?_
    exact absurd heq (hfree.unused f' (by simpa using hf'))

theorem logs_phrases (hstore : r.store = .inMemory) (geo : Geo) {phrases : List String}
    (hkeys : ∀ phrase ∈ phrases, .partialAnswer .text [phrase] geo ∈ keys) :
    Logs Ledger.entries (Ledger.HoldsOn base) (Files base keys)
      (phrases.mapM (fetchPhrase r geo)) fun _ => Files base keys :=
  Logs.mapM (I := fun _ => Files base keys) (fun phrase hphrase _ own hown =>
    (logs_fetchPhrase hstore geo phrase own).weaken (fun _ => id)
      (fun _ _ hfetched => hfetched.files hown (hkeys phrase hphrase)) own rfl) []

/-! ## Calls -/

/-- An answer may be filed under a key: nothing else was filed there. -/
structure Ready (base : Table Dataset) (keys : List CacheKey) (key : CacheKey) (sourced : Sourced)
    (own : List Entry) : Prop where
  files : Files base keys own
  same : ∀ f, .filed f ∈ own → f.key = key → f.dataset = sourced.answer.dataset

/-- A search by text files for its phrases. -/
theorem logs_resolveText (hstore : r.store = .inMemory) (hkind : d.kind = .text) :
    Logs Ledger.entries (Ledger.HoldsOn base) (· = []) (resolveText r d geo) fun _ =>
      Files base (d.phraseKeys geo) := by
  have hincluded : ∀ phrase ∈ d.included, CacheKey.partialAnswer .text [phrase]
      (if d.included.length = 1 then geo else geo.firstPage) ∈ d.phraseKeys geo := by
    intro phrase hphrase
    rw [CallDescriptor.phraseKeys, hkind]
    exact List.mem_append_left _ (List.mem_map.mpr ⟨phrase, hphrase, rfl⟩)
  have hexcluded : ∀ phrase ∈ d.excluded, CacheKey.partialAnswer .text [phrase] geo.firstPage ∈
      d.phraseKeys geo := by
    intro phrase hphrase
    rw [CallDescriptor.phraseKeys, hkind]
    exact List.mem_append_right _ (List.mem_map.mpr ⟨phrase, hphrase, rfl⟩)
  rw [resolveText]
  split
  · exact .pure fun own hown => hown ▸ .nil
  · refine ((logs_phrases hstore _ hincluded).weaken (fun own hown => hown ▸ .nil)
      fun _ _ => id).bind fun included => ?_
    exact (logs_phrases hstore _ hexcluded).bind fun excluded => .pure fun _ => id

theorem resolveText_single (phrase : String) (geo : Geo) :
    resolveText r ⟨[phrase], [], .text⟩ geo = (do
      let sourced ← fetchPhrase r geo phrase
      return ⟨.combine [sourced.answer]
          ((Dataset.common [sourced.answer.dataset]).difference (Dataset.union []))
          sourced.answer.nextCursor,
        sourced.calls⟩) := by
  simp [resolveText]

/-- An answer of the provider, put together with nothing else. -/
theorem dataset_of_isMadeBy {c : ProviderCall} (hc : c.IsMadeBy r) :
    ((Dataset.common [c.outcome.dataset]).difference (Dataset.union [])).withNextCursor
      c.outcome.nextCursor = c.outcome.dataset := by
  obtain ⟨g, hg⟩ := exists_isOf_of_returns hc
  obtain ⟨fs, hfs⟩ := hg.exists_ofFeatures
  rw [hfs, Dataset.difference_common_singleton]

/-- The answer to a search for a single phrase, whose key is the key of the search: what was filed
for the phrase is what will be filed for the search. -/
theorem ready_resolveText_of_single (hstore : r.store = .inMemory) {phrase : String}
    (hd : d = ⟨[phrase], [], .text⟩) :
    Logs Ledger.entries (Ledger.HoldsOn base) (· = []) (resolveText r d geo)
      (Ready base (d.keys geo) (.ofDescriptor d geo)) := by
  subst hd
  rw [resolveText_single]
  refine (logs_fetchPhrase hstore geo phrase []).bind fun sourced => .pure fun own hfetched => ?_
  have hkey : .partialAnswer .text [phrase] geo ∈
      CallDescriptor.keys ⟨[phrase], [], .text⟩ geo := List.mem_cons_self
  refine ⟨hfetched.files .nil hkey, fun f hf _ => ?_⟩
  cases hfetched with
  | found => cases hf
  | made => cases List.mem_singleton.mp hf
  | @kept c hc =>
    obtain rfl := Entry.filed.inj ((List.mem_cons.mp hf).resolve_right (by simp))
    exact (dataset_of_isMadeBy hc).symm

/-- The answer to a search by text may be filed under its key: a search that is more than a phrase
has a key that none of its phrases has. -/
theorem ready_resolveText (hstore : r.store = .inMemory) (hkind : d.kind = .text)
    (hproper : d.IsProper) :
    Logs Ledger.entries (Ledger.HoldsOn base) (· = []) (resolveText r d geo)
      (Ready base (d.keys geo) (.ofDescriptor d geo)) := by
  by_cases hsingle : ∃ phrase, d = ⟨[phrase], [], .text⟩
  · obtain ⟨phrase, hd⟩ := hsingle
    exact ready_resolveText_of_single hstore hd
  have hmore : d.included.length = 1 → d.excluded ≠ [] := by
    intro hone hnil
    obtain ⟨phrase, hphrase⟩ := List.length_eq_one_iff.mp hone
    refine hsingle ⟨phrase, ?_⟩
    calc d = ⟨d.included, d.excluded, d.kind⟩ := rfl
      _ = ⟨[phrase], [], .text⟩ := by rw [hphrase, hnil, hkind]
  obtain ⟨hincluded, hexcluded⟩ := CacheKey.forall_mentions_iff.mp (hproper.nonempty hkind)
  by_cases hnone : d.included = []
  · rw [resolveText, if_pos (by simp [hnone])]
    refine .pure ?_
    rintro _ rfl
    exact ⟨.nil, fun _ hf => absurd hf List.not_mem_nil⟩
  have hother : CacheKey.ofDescriptor d geo ∉ d.phraseKeys geo := by
    rw [CallDescriptor.phraseKeys, hkind]
    intro hmem
    rcases List.mem_append.mp hmem with hmem | hmem
    · obtain ⟨phrase, hphrase, heq⟩ := List.mem_map.mp hmem
      exact CacheKey.included_ne_ofDescriptor (hproper.nodup hkind) hexcluded hmore hphrase heq
    · obtain ⟨phrase, hphrase, heq⟩ := List.mem_map.mp hmem
      exact CacheKey.excluded_ne_ofDescriptor hnone hincluded hphrase heq
  refine (logs_resolveText hstore hkind).weaken (fun _ => id) fun sourced own hfiles => ?_
  refine ⟨hfiles.mono (List.subset_cons_self _ _), fun f hf hkey => ?_⟩
  exact absurd (hkey ▸ hfiles.keys f hf) hother

theorem logs_composed (hstore : r.store = .inMemory) :
    Logs Ledger.entries (Ledger.HoldsOn base) F (composed r d geo) fun _ => F := by
  have hlookup : ∀ key, Logs Ledger.entries (Ledger.HoldsOn base) F (liftM (lookup r key))
      fun _ => F := fun key => (logs_lookup hstore key).weaken (fun _ => id) fun _ _ h => h.1
  rw [composed]
  split
  · exact .pure fun _ => id
  · refine (hlookup _).bind fun found => ?_
    cases found with
    | none => exact .pure fun _ => id
    | some found =>
      refine (hlookup _).bind fun found' => ?_
      cases found' <;> exact .pure fun _ => id

/-- A search by category files nothing before it has its answer. -/
theorem ready_resolveCategory (hstore : r.store = .inMemory) :
    Logs Ledger.entries (Ledger.HoldsOn base) (· = []) (resolveCategory r d geo)
      (Ready base (d.keys geo) (.ofDescriptor d geo)) := by
  have hnothing : ∀ {sourced own}, (∀ f, .filed f ∉ own) →
      Ready base (d.keys geo) (.ofDescriptor d geo) sourced own := fun h =>
    ⟨⟨fun f hf => absurd hf (h f), fun f hf => absurd hf (h f), fun f _ hf => absurd hf (h f)⟩,
      fun f hf => absurd hf (h f)⟩
  rw [resolveCategory]
  refine (logs_composed hstore).bind fun found => ?_
  cases found with
  | some found =>
    refine .pure ?_
    rintro _ rfl
    exact hnothing (by simp)
  | none =>
    refine (logs_call (Ledger.isOfFiles_holdsOn base) _).bind fun c => .pure ?_
    rintro _ ⟨-, _, rfl, rfl⟩
    exact hnothing (by simp)

/-- For one call nothing is filed but under its own keys, none of which was in use at first, and
never two datasets under one key. -/
theorem files_resolve (hstore : r.store = .inMemory) (hproper : d.IsProper) :
    Logs Ledger.entries (Ledger.HoldsOn base) (· = []) (resolve r d geo) fun _ =>
      Files base (d.keys geo) := by
  rw [resolve]
  refine (logs_lookup hstore _).bind fun found => ?_
  cases found with
  | some found => exact .pure fun own h => h.1 ▸ .nil
  | none =>
    intro own
    rintro ⟨rfl, hfree⟩
    have hkept : ∀ sourced, Logs Ledger.entries (Ledger.HoldsOn base)
        (Ready base (d.keys geo) (.ofDescriptor d geo) sourced)
        (do keepWhole r (.ofDescriptor d geo) sourced; return sourced) fun _ =>
          Files base (d.keys geo) := by
      refine fun sourced => (logs_keepWhole hstore (hfree rfl).absent sourced).bind
        fun _ => .pure fun own hown => ?_
      rcases hown with hown | ⟨own, hown, rfl⟩
      · exact hown.files
      · exact hown.files.cons_filed List.mem_cons_self (hfree rfl).absent hown.same
    cases hkind : d.kind with
    | category => exact ((ready_resolveCategory hstore).bind hkept) [] rfl
    | text => exact ((ready_resolveText hstore hkind hproper).bind hkept) [] rfl

end Traced

end PlaceSearch
