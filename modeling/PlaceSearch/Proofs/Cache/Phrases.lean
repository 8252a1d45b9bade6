import PlaceSearch.Proofs.Cache.PhraseKey
import PlaceSearch.Proofs.Cache.Resolve
import PlaceSearch.Proofs.Dataset.Ids
import PlaceSearch.Proofs.Provider.Execute

/-!
# Searches by text are put together from phrases

The answer to a search by text is made of the answers to its phrases, each of which is stored or
fetched by itself.  A provider that has one answer to every phrase gives the search one answer,
whichever of its phrases are in the store: of the places of the first included phrase those that
every included phrase has and no excluded one.  Only places that have an id can be found again in
another answer, so that the ones without an id are left out as soon as a second phrase is included,
and are never excluded.
-/

namespace PlaceSearch

@[simp] theorem Geo.firstPage_ofCircle (circle : Circle) :
    (Geo.ofCircle circle).firstPage = .ofCircle circle :=
  rfl

/-! ## The places that all datasets have -/

namespace Dataset

/-- The features of the first dataset that all others have too; those without an id stay only if
there is no other dataset. -/
theorem features_common {d : Dataset} (h : d.ids.Nodup) (ds : List Dataset) :
    (common (d :: ds)).features = d.features.filter fun f =>
      match f.id? with
      | none => ds.isEmpty
      | some id => ds.all (·.ids.contains id) := by
  rw [common]
  induction ds generalizing d with
  | nil =>
    refine (List.filter_eq_self.mpr fun f _ => ?_).symm
    cases f.id? <;> rfl
  | cons e ds ih =>
    have hnodup : (d.intersection e).ids.Nodup := nodup_ids_ofFeatures _
    rw [List.foldl_cons, ih hnodup, features_intersection h, List.filter_filter]
    refine List.filter_congr fun f _ => ?_
    cases f.id? with
    | none => exact Bool.and_false _
    | some id => exact Bool.and_comm _ _

theorem nodup_ids_common {d : Dataset} (h : d.ids.Nodup) (ds : List Dataset) :
    (common (d :: ds)).ids.Nodup := by
  have hsub : (common (d :: ds)).features.Sublist d.features := by
    rw [features_common h]
    exact List.filter_sublist
  exact h.sublist (hsub.filterMap _)

end Dataset

/-- Whether a place of the first included phrase is part of the answer to a search by text, given
the answers to single phrases. -/
def CallDescriptor.selects (d : CallDescriptor) (answer : String → Dataset) (f : Feature) : Bool :=
  match f.id? with
  | none => d.included.length = 1
  | some id =>
    d.included.all (fun p => (answer p).ids.contains id) &&
      !d.excluded.any fun p => (answer p).ids.contains id

namespace Resolver

variable {σ : Type} {r : Resolver σ} {holds : σ → CacheKey → Dataset → Prop} {geo : Geo}
  {circle : Circle} {answer : String → Dataset} {d : CallDescriptor} {session : Session σ}

/-! ## One answer to every phrase -/

/-- The provider answers every phrase with success and one dataset, whatever it was asked before,
and there are no further pages. -/
structure AnswersPhrases (r : Resolver σ) (geo : Geo) (answer : String → Dataset) : Prop where
  succeeds : ∀ p s, ((r.call (.ofPhrase geo p)).run s).1.failed = false
  dataset : ∀ p s, ((r.call (.ofPhrase geo p)).run s).1.dataset = answer p
  last : ∀ p, (answer p).nextCursor = none

/-- A provider that answers every phrase at once, with one body. -/
theorem answersPhrases_of_replies {body : String → Json}
    (h : ∀ sent p, r.transport sent (.ofPhrase geo p) = .answered 200 (body p))
    (hlast : ∀ p, Record.nextPage (body p) = none) :
    r.AnswersPhrases geo fun p => Dataset.ofFeatures (Record.features (body p)) := by
  have houtcome : ∀ p (s : Session σ), ((r.call (.ofPhrase geo p)).run s).1 =
      .ofRecord (.ofPhrase geo p) .success { attempts := 1, body := some (body p) } := by
    intro p s
    obtain ⟨g, hg⟩ := r.exists_isOf_call (.ofPhrase geo p) s
    obtain ⟨sent, body', hreply, heq⟩ := hg.eq_of_answered fun sent => ⟨_, h sent p⟩
    obtain ⟨-, rfl⟩ := Reply.answered.inj ((h sent p).symm.trans hreply)
    exact heq
  refine ⟨fun p s => congrArg Outcome.failed (houtcome p s), fun p s => ?_, fun p => rfl⟩
  have hdataset : (Dataset.ofFeatures (Record.features (body p))).withNextCursor
      (Record.nextPage (body p)) = Dataset.ofFeatures (Record.features (body p)) := by
    rw [hlast]
    rfl
  exact (congrArg Outcome.dataset (houtcome p s)).trans hdataset

theorem AnswersPhrases.nodup_ids (h : r.AnswersPhrases geo answer) (s : Session σ) (p : String) :
    (answer p).ids.Nodup := by
  obtain ⟨g, hg⟩ := r.exists_isOf_call (.ofPhrase geo p) s
  obtain ⟨fs, hfs⟩ := hg.exists_ofFeatures
  rw [← h.dataset p s, hfs]
  exact Dataset.nodup_ids_ofFeatures fs

/-- What is under the key of a phrase is the answer to it. -/
def IsAnswer (geo : Geo) (answer : String → Dataset) (key : CacheKey) (d : Dataset) : Prop :=
  ∀ p, key = .partialAnswer .text [p] geo → d = answer p

/-- What was got is a given dataset: the last page, and no stand-in. -/
structure Got (d : Dataset) (got : Resolved) : Prop where
  dataset : got.dataset = d
  last : got.nextCursor = none
  whole : got.degraded = false

theorem leads_call_phrase (hprovider : r.AnswersPhrases geo answer) (p : String) :
    Leads (Stored holds fun _ => IsAnswer geo answer) (r.call (.ofPhrase geo p)) fun outcome s =>
      Got (answer p) (.ofOutcome outcome) ∧ Stored holds (fun _ => IsAnswer geo answer) s := by
  intro s hs
  obtain ⟨⟨g, hg⟩, hs'⟩ := (Keeps.call (.ofPhrase geo p) fun _ _ => id).run hs
  have hcursor := hg.nextCursor_dataset
  rw [hprovider.dataset p s, hprovider.last p] at hcursor
  exact ⟨⟨hprovider.dataset p s, hcursor.symm, hprovider.succeeds p s⟩, hs'⟩

/-- A phrase has its answer, from the store or from the provider.  It is stored under the key of
this phrase only. -/
theorem leads_fetchPhrase (hstore : r.store.IsHonest holds)
    (hprovider : r.AnswersPhrases geo answer) (p : String) :
    Leads (Stored holds fun _ => IsAnswer geo answer) (r.fetchPhrase geo p) fun got s =>
      Got (answer p) got ∧ Stored holds (fun _ => IsAnswer geo answer) s := by
  rw [fetchPhrase]
  refine (Leads.of_keeps (keeps_lookup hstore _)).bind fun found => ?_
  cases found with
  | some a =>
    refine .pure fun s hs => ?_
    obtain rfl : a = answer p := hs.1 a rfl p rfl
    exact ⟨⟨rfl, hprovider.last p, rfl⟩, hs.2⟩
  | none =>
    refine ((leads_call_phrase hprovider p).weaken (fun _ hs => hs.2) fun _ _ => id).bind
      fun outcome => ?_
    intro s ⟨houtcome, hs⟩
    have hkeep : Keeps (Stored holds fun _ => IsAnswer geo answer)
        (liftM (r.keepWhole (.partialAnswer .text [p] geo) (.ofOutcome outcome))) fun _ => True :=
      keeps_keepWhole hstore fun q hkey => by
        rw [← CacheKey.partialAnswer_phrase_inj hkey]
        exact houtcome.dataset
    exact ⟨houtcome, (hkeep.run hs).2⟩

/-! ## Putting the answers together -/

/-- The places that all included phrases have and no excluded one, taken from the first included
phrase. -/
theorem features_composed (hnodup : ∀ p, (answer p).ids.Nodup) {p : String} {ps : List String}
    (hd : d.included = p :: ps) :
    ((Dataset.common (d.included.map answer)).difference
        (Dataset.union (d.excluded.map answer))).features =
      (answer p).features.filter (d.selects answer) := by
  rw [hd, List.map_cons, Dataset.features_difference (Dataset.nodup_ids_common (hnodup p) _),
    Dataset.features_common (hnodup p), List.filter_filter]
  refine List.filter_congr fun f hf => ?_
  rw [CallDescriptor.selects, hd]
  cases hid : f.id? with
  | none => cases ps <;> simp
  | some id =>
    have hfirst : (answer p).ids.contains id = true :=
      List.contains_iff_mem.mpr (Dataset.mem_ids.mpr ⟨f, hf, hid⟩)
    have hexcluded : (Dataset.union (d.excluded.map answer)).ids.contains id =
        d.excluded.any fun q => (answer q).ids.contains id := by
      rw [Bool.eq_iff_iff, List.contains_iff_mem, Dataset.mem_ids_union]
      simp
    simp only [hexcluded, List.all_map, List.all_cons, hfirst, Bool.true_and, Function.comp_def]
    exact Bool.and_comm _ _

theorem map_dataset_of_got {ps : List String} {parts : List Resolved}
    (h : List.Forall₂ (fun p => Got (answer p)) ps parts) :
    parts.map (·.dataset) = ps.map answer := by
  induction h with
  | nil => rfl
  | cons hgot _ ih => rw [List.map_cons, List.map_cons, ih, hgot.dataset]

theorem last_and_whole_of_got {ps : List String} {parts : List Resolved}
    (h : List.Forall₂ (fun p => Got (answer p)) ps parts) :
    ∀ got ∈ parts, got.nextCursor = none ∧ got.degraded = false := by
  induction h with
  | nil => exact nofun
  | cons hgot _ ih => exact List.forall_mem_cons.mpr ⟨⟨hgot.last, hgot.whole⟩, ih⟩

/-- The answers to the phrases of a search, put together. -/
theorem leads_resolveText (hstore : r.store.IsHonest holds)
    (hprovider : r.AnswersPhrases (.ofCircle circle) answer) (hne : d.included ≠ []) :
    Leads (Stored holds fun _ => IsAnswer (.ofCircle circle) answer)
      (r.resolveText d (.ofCircle circle)) fun got _ =>
        Got ((Dataset.common (d.included.map answer)).difference
          (Dataset.union (d.excluded.map answer))) got := by
  have hfetch : ∀ ps : List String, Leads (Stored holds fun _ => IsAnswer (.ofCircle circle) answer)
      (ps.mapM (r.fetchPhrase (.ofCircle circle))) fun parts s =>
        List.Forall₂ (fun p => Got (answer p)) ps parts ∧
          Stored holds (fun _ => IsAnswer (.ofCircle circle) answer) s := fun ps =>
    .mapM fun p _ => leads_fetchPhrase hstore hprovider p
  rw [resolveText, if_neg (by simpa using hne)]
  simp only [Geo.firstPage_ofCircle, ite_self]
  refine (hfetch d.included).bind fun included s ⟨hincluded, hs⟩ => ?_
  obtain ⟨hexcluded, -⟩ := hfetch d.excluded s hs
  rw [Process.run_bind, Process.run_pure]
  have hparts := List.forall_mem_append.mpr
    ⟨last_and_whole_of_got hincluded, last_and_whole_of_got hexcluded⟩
  have hcursor : included.head?.bind (·.nextCursor) = none := by
    cases included with
    | nil => rfl
    | cons got _ => exact (hparts got List.mem_cons_self).1
  rw [hcursor, ite_self, map_dataset_of_got hincluded, map_dataset_of_got hexcluded]
  exact ⟨rfl, rfl, List.any_eq_false.mpr fun got hgot => by simp [(hparts got hgot).2]⟩

/-! ## The answer to a search by text -/

/-- Nothing is found under a key under which nothing is held. -/
theorem fst_lookup_of_absent (hstore : r.store.IsHonest holds) {key : CacheKey}
    (habsent : ∀ a, ¬holds session.store key a) : ((r.lookup key).run session).1 = none :=
  Option.eq_none_iff_forall_ne_some.mpr fun a ha =>
    habsent a (hstore.get (eq_ok_of_toOption_join ha))

/-- A search by text that is not stored is put together; keeping it changes nothing about it. -/
theorem run_resolve_of_miss (hkind : d.kind = .text) {session' : Session σ}
    (hmiss : (r.lookup (.ofDescriptor d geo)).run session = (none, session')) :
    (r.resolve d geo).run session =
      (((r.resolveText d geo).run session').1,
        ((r.keepWhole (.ofDescriptor d geo) ((r.resolveText d geo).run session').1).run
          ((r.resolveText d geo).run session').2).2) := by
  rw [resolve, Process.run_bind, Process.run_lift, hmiss, hkind]
  change (r.resolveText d geo >>= _).run session' = _
  rw [Process.run_bind]
  rfl

theorem run_resolveText_of_nil (hd : d.included = []) (s : Session σ) :
    (r.resolveText d geo).run s = ({}, s) := by
  rw [resolveText, if_pos (by simp [hd])]
  rfl

/-- What is held when a search by text at the first page of a circle begins: right answers to
phrases, and no answer to the search itself. -/
structure HoldsParts (holds : σ → CacheKey → Dataset → Prop) (circle : Circle)
    (answer : String → Dataset) (d : CallDescriptor) (s : Session σ) : Prop where
  stored : ∀ p a, holds s.store (.partialAnswer .text [p] (.ofCircle circle)) a → a = answer p
  absent : ∀ a, ¬holds s.store (.ofDescriptor d (.ofCircle circle)) a

/-- Without an included phrase there is no answer, and nothing is sent. -/
theorem resolve_of_nil (hstore : r.store.IsHonest holds) (hkind : d.kind = .text)
    (hparts : HoldsParts holds circle answer d session) (hd : d.included = []) :
    ((r.resolve d (.ofCircle circle)).run session).1 = {} ∧
      ((r.resolve d (.ofCircle circle)).run session).2.sent = session.sent := by
  have hmiss := fst_lookup_of_absent hstore hparts.absent
  rw [run_resolve_of_miss hkind (Prod.ext hmiss rfl), run_resolveText_of_nil hd]
  exact ⟨rfl, sent_keepWhole _ _ _⟩

/-- The answer is put together from the answers to the phrases. -/
theorem got_resolve (hstore : r.store.IsHonest holds)
    (hprovider : r.AnswersPhrases (.ofCircle circle) answer) (hkind : d.kind = .text)
    (hparts : HoldsParts holds circle answer d session) (hne : d.included ≠ []) :
    Got ((Dataset.common (d.included.map answer)).difference
        (Dataset.union (d.excluded.map answer)))
      ((r.resolve d (.ofCircle circle)).run session).1 := by
  have hmiss := fst_lookup_of_absent hstore hparts.absent
  have hstored : Stored holds (fun _ => IsAnswer (.ofCircle circle) answer) session :=
    fun _ a ha p hkey => hparts.stored p a (hkey ▸ ha)
  rw [run_resolve_of_miss hkind (Prod.ext hmiss rfl)]
  exact leads_resolveText hstore hprovider hne _ (hstored.lookup hstore _).2

/-- The places of the answer are those that every included phrase has and no excluded one. -/
theorem mem_ids_resolve_text (hstore : r.store.IsHonest holds)
    (hprovider : r.AnswersPhrases (.ofCircle circle) answer) (hkind : d.kind = .text)
    (hparts : HoldsParts holds circle answer d session) (id : String) :
    id ∈ ((r.resolve d (.ofCircle circle)).run session).1.dataset.ids ↔ d.included ≠ [] ∧
      (∀ p ∈ d.included, id ∈ (answer p).ids) ∧ ∀ p ∈ d.excluded, id ∉ (answer p).ids := by
  cases hd : d.included with
  | nil =>
    rw [(resolve_of_nil hstore hkind hparts hd).1]
    simp [Dataset.ids]
  | cons p ps =>
    have hselects : ∀ f : Feature, f.id? = some id → (d.selects answer f = true ↔
        (∀ q ∈ p :: ps, id ∈ (answer q).ids) ∧ ∀ q ∈ d.excluded, id ∉ (answer q).ids) := by
      intro f hid
      simp [CallDescriptor.selects, hid, hd]
    rw [(got_resolve hstore hprovider hkind hparts (by simp [hd])).dataset, Dataset.mem_ids,
      features_composed (hprovider.nodup_ids session) hd]
    constructor
    · rintro ⟨f, hf, hid⟩
      exact ⟨List.cons_ne_nil p ps, (hselects f hid).mp (List.mem_filter.mp hf).2⟩
    · rintro ⟨-, hincluded, hexcluded⟩
      obtain ⟨f, hf, hid⟩ := Dataset.mem_ids.mp (hincluded p List.mem_cons_self)
      exact ⟨f, List.mem_filter.mpr ⟨hf, (hselects f hid).mpr ⟨hincluded, hexcluded⟩⟩, hid⟩

/-- A provider that has one answer to every phrase gives every search by text one answer, whichever
of its phrases are stored.  Without an included phrase it is empty, and nothing is sent for it.
Otherwise it has, in the order in which the first included phrase has them, the places with an id
that every included phrase has and no excluded one, and those without an id if a single phrase is
included.  So its ids do not depend on the order of the phrases, nor on which of them are
stored. -/
theorem resolve_text (hstore : r.store.IsHonest holds)
    (hprovider : r.AnswersPhrases (.ofCircle circle) answer) (hkind : d.kind = .text)
    (hparts : HoldsParts holds circle answer d session) :
    let got := (r.resolve d (.ofCircle circle)).run session
    got.1.degraded = false ∧ got.1.nextCursor = none ∧
      (d.included = [] → got.1.dataset.features = [] ∧ got.2.sent = session.sent) ∧
      (∀ p ps, d.included = p :: ps →
        got.1.dataset.features = (answer p).features.filter (d.selects answer)) ∧
      (∀ id, id ∈ got.1.dataset.ids ↔ d.included ≠ [] ∧
        (∀ p ∈ d.included, id ∈ (answer p).ids) ∧ ∀ p ∈ d.excluded, id ∉ (answer p).ids) ∧
      ∀ d' session', d'.kind = .text → (∀ t, t ∈ d.included ↔ t ∈ d'.included) →
        (∀ t, t ∈ d.excluded ↔ t ∈ d'.excluded) → HoldsParts holds circle answer d' session' →
          ∀ id, id ∈ got.1.dataset.ids ↔
            id ∈ ((r.resolve d' (.ofCircle circle)).run session').1.dataset.ids := by
  intro got
  have hids := mem_ids_resolve_text hstore hprovider hkind hparts
  have hwhole : got.1.degraded = false ∧ got.1.nextCursor = none := by
    by_cases hd : d.included = []
    · rw [(resolve_of_nil hstore hkind hparts hd).1]
      exact ⟨rfl, rfl⟩
    · have hgot := got_resolve hstore hprovider hkind hparts hd
      exact ⟨hgot.whole, hgot.last⟩
  refine ⟨hwhole.1, hwhole.2, fun hd => ?_, fun p ps hd => ?_, hids, ?_⟩
  · obtain ⟨hnone, hsent⟩ := resolve_of_nil hstore hkind hparts hd
    exact ⟨congrArg (·.dataset.features) hnone, hsent⟩
  · rw [(got_resolve hstore hprovider hkind hparts (by simp [hd])).dataset,
      features_composed (hprovider.nodup_ids session) hd]
  · intro d' session' hkind' hi he hparts' id
    have hne : d.included ≠ [] ↔ d'.included ≠ [] :=
      not_congr (by simp only [List.eq_nil_iff_forall_not_mem, hi])
    rw [hids, mem_ids_resolve_text hstore hprovider hkind' hparts' id, hne]
    simp only [hi, he]

/-- Of the places `x`, `y` and one without an id for one phrase, and `y` and `z` for another, both
phrases together have `y`, in either order, and also if the second phrase is stored. -/
theorem resolve_text_of_two_phrases :
    let place : String → Json := fun id => Json.object [("id", .str id)]
    let body : String → Json := fun p => Json.object [("places", .arr <|
      if p = "a" then [place "x", Json.object [], place "y"] else [place "y", place "z"])]
    let r : Resolver (Table Dataset) :=
      { transport := fun _ request => match request with
          | .text _ p _ => .answered 200 (body p)
          | _ => .lost "no such search"
        policy := {}
        store := .inMemory }
    let circle : Circle := ⟨⟨59.33, 18.06⟩, 1500.0⟩
    let answer : String → Dataset := fun p => Dataset.ofFeatures (Record.features (body p))
    let key := CacheKey.partialAnswer .text ["b"] (.ofCircle circle)
    let d : CallDescriptor := ⟨["a", "b"], [], .text⟩
    let d' : CallDescriptor := ⟨["b", "a"], [], .text⟩
    let got := ((r.resolve d (.ofCircle circle)).run { store := [] }).1
    let stored : Table Dataset := .put key.canonical (answer "b") []
    let got' := ((r.resolve d' (.ofCircle circle)).run { store := stored }).1
    "y" ∈ got.dataset.ids ∧ "x" ∉ got.dataset.ids ∧
      got.dataset.features = (answer "a").features.filter (d.selects answer) ∧
      ∀ id, id ∈ got.dataset.ids ↔ id ∈ got'.dataset.ids := by
  intro place body r circle answer key d d' got stored got'
  have hprovider : r.AnswersPhrases (.ofCircle circle) answer :=
    answersPhrases_of_replies (fun _ _ => rfl) fun p => rfl
  have hids : (answer "a").ids = ["x", "y"] := rfl
  have hids' : (answer "b").ids = ["y", "z"] := rfl
  have hparts : HoldsParts (fun t k a => Table.get? k.canonical t = some a) circle answer d
      { store := [] } := ⟨by simp, by simp⟩
  have hheld : ∀ (k : CacheKey) (a : Dataset), stored.get? k.canonical = some a →
      k = key ∧ a = answer "b" :=
    fun k a ha => (DatasetStore.get?_put ha).resolve_left (by simp)
  have hother : CacheKey.ofDescriptor d' (.ofCircle circle) ≠ key := fun h => by
    have hmem := (CacheKey.mem_iff_of_build_eq (by decide) (by decide) (by decide) (by decide) h).1
    exact absurd ((hmem "a").mp (by decide)) (by decide)
  have hparts' : HoldsParts (fun t k a => Table.get? k.canonical t = some a) circle answer d'
      { store := stored } := {
    stored := fun p a ha => by
      obtain ⟨hkey, rfl⟩ := hheld _ a ha
      rw [CacheKey.partialAnswer_phrase_inj hkey]
    absent := fun a ha => hother (hheld _ a ha).1 }
  obtain ⟨-, -, -, hfeatures, hmem, hsame⟩ :=
    resolve_text DatasetStore.isHonest_inMemory hprovider rfl hparts
  have hy : "y" ∈ got.dataset.ids := (hmem "y").mpr (by simp [d, hids, hids'])
  have hx : "x" ∉ got.dataset.ids := fun hx => by
    have hb := ((hmem "x").mp hx).2.1 "b" (by decide)
    simp [hids'] at hb
  have hfirst : got.dataset.features = (answer "a").features.filter (d.selects answer) := by
    rw [← hfeatures "a" ["b"] rfl]
  exact ⟨hy, hx, hfirst,
    hsame d' _ rfl (by simp [d, d', or_comm]) (by simp [d, d']) hparts'⟩

end Resolver

end PlaceSearch
