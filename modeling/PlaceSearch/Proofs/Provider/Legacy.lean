import PlaceSearch.Proofs.Provider.World

/-!
# Answers in the older shape

If no attempt in the current shape has success, a request is sent in the older one, which knows a
single included type and no exclusions, and is answered with records in the older schema.  A search
by category then gives what it would have given in the current shape, less the places that do not
have the first of the included types: the exclusions are made up for when the answer is read, the
other included types are not.  Nothing is lost if no more than one type is included, and only then
the answer counts as complete.

The provider here knows a world.  Any of its answers may fail to come, and may come in either shape,
but those that come are from the world.
-/

namespace PlaceSearch

variable {t : Transport} {policy : RetryPolicy} {r : Request} {sent : List Request}
  {world ps : List Place} {p : Place} {fs : List Feature} {body : Json}
  {included excluded : List String} {circle : Circle}

/-! ## Calls in either shape -/

/-- None of the attempts in the current shape has success, and the one in the older shape has. -/
structure Transport.NeedsLegacy (t : Transport) (policy : RetryPolicy) (r : Request)
    (sent : List Request) : Prop where
  current_fails : ∀ n ≤ policy.maxRetries, ¬(t (List.replicate n r ++ sent) r).Succeeds
  legacy_succeeds : (t (List.replicate (policy.maxRetries + 1) r ++ sent) r.toLegacy).Succeeds

/-- A call that was answered in the current shape gives the features of the answer. -/
theorem dataset_execute_of_current (h : ((execute t policy r).run sent).1.usedLegacy = false) :
    ∃ sent' body, t sent' r = .answered 200 body ∧
      ((execute t policy r).run sent).1.dataset.features =
        (Dataset.ofFeatures (Record.features body)).features := by
  obtain ⟨g, -, -, ⟨hreplies, state, c, ⟨hreached, hfinal⟩, houtcome⟩⟩ :=
    exists_run_execute t policy r sent
  rw [houtcome] at h ⊢
  cases hreached with
  | @success n g body _ _ =>
    obtain ⟨sent', hreply⟩ := hreplies _ List.mem_cons_self
    exact ⟨sent', body, hreply.symm, rfl⟩
  | legacySuccess => cases h
  | failed => cases h
  | _ => simp at hfinal

/-- A call of which only the older shape has success gives the features of that answer, less those
with an excluded type. -/
theorem run_execute_of_needsLegacy (h : t.NeedsLegacy policy r sent) :
    ∃ sent' body, t sent' r.toLegacy = .answered 200 body ∧
      let outcome := ((execute t policy r).run sent).1
      outcome.dataset.features = (Dataset.ofFeatures (legacyFeatures r body)).features ∧
        outcome.usedLegacy = true ∧ outcome.failed = false := by
  obtain ⟨g, -, hreplies, ⟨-, state, c, ⟨hreached, hfinal⟩, houtcome⟩⟩ :=
    exists_run_execute t policy r sent
  rw [houtcome]
  cases hreached with
  | @success n g body hn hg =>
    have hreply : Reply.answered 200 body = t (g.map (·.request) ++ sent) r :=
      (List.cons.inj hreplies).1
    rw [hg.requests] at hreply
    exact absurd ⟨body, hreply.symm⟩ (h.current_fails n hn)
  | @legacySuccess g body hg =>
    exact ⟨_, body, (List.cons.inj hreplies).1.symm, rfl, rfl, rfl⟩
  | @failed g reply hg hreply =>
    have hreply' : reply = t (g.map (·.request) ++ sent) r.toLegacy := (List.cons.inj hreplies).1
    rw [hg.requests] at hreply'
    exact absurd h.legacy_succeeds (hreply' ▸ hreply)
  | _ => simp at hfinal

/-! ## Records -/

/-- A record of a place in the current schema: its id and its types, and nothing by which the older
schema is told. -/
structure Place.IsRecord (p : Place) (r : Json) : Prop where
  id : r.get? "id" = some (.str p.id)
  types : r.get? "types" = some (.ofTexts p.types)
  no_geometry : r.get? "geometry" = none
  no_place_id : r.get? "place_id" = none

/-- A record of a place in the older schema. -/
structure Place.IsLegacyRecord (p : Place) (r : Json) : Prop where
  id : r.get? "place_id" = some (.str p.id)
  types : r.get? "types" = some (.ofTexts p.types)

/-- A feature that shows a place has its id and its types. -/
structure Place.IsShownBy (p : Place) (f : Feature) : Prop where
  id : f.id? = some p.id
  types : f.properties.types = p.types

theorem Record.types_of_ofTexts {record : Json} {types : List String}
    (h : record.get? "types" = some (.ofTexts types)) : Record.types record = types := by
  simp [Record.types, h, Json.ofTexts, Json.items?, List.filterMap_map, Function.comp_def,
    Json.text?]

theorem Place.IsRecord.isShownBy {record : Json} (h : p.IsRecord record) :
    p.IsShownBy (Record.toFeature record) := by
  have hcurrent : Record.isLegacy record = false := by
    simp [Record.isLegacy, h.no_geometry, h.no_place_id]
  constructor
  · simp [Record.toFeature, hcurrent, Feature.id?, Json.textAt?, h.id, Json.text?]
  · simp [Record.toFeature, hcurrent, Record.types_of_ofTexts h.types]

theorem Place.IsLegacyRecord.isShownBy {record : Json} (h : p.IsLegacyRecord record) :
    p.IsShownBy (Record.toFeature record) := by
  have hlegacy : Record.isLegacy record = true := by
    simp [Record.isLegacy, h.id]
  constructor
  · simp [Record.toFeature, hlegacy, Feature.id?, Json.textAt?, h.id, Json.text?]
  · simp [Record.toFeature, hlegacy, Record.types_of_ofTexts h.types]

theorem idsOf_of_shown (h : List.Forall₂ Place.IsShownBy ps fs) :
    Dataset.idsOf fs = ps.map Place.id := by
  induction h with
  | nil => rfl
  | cons hf _ ih =>
    rw [Dataset.idsOf, List.filterMap_cons_some hf.id, List.map_cons, ← ih]
    rfl

/-- Features of places that are told apart by their ids all stay in a dataset. -/
theorem features_ofFeatures_of_shown (h : List.Forall₂ Place.IsShownBy ps fs)
    (hps : ps.Sublist world) (hnodup : (world.map Place.id).Nodup) :
    (Dataset.ofFeatures fs).features = fs := by
  apply Dataset.features_ofFeatures
  rw [idsOf_of_shown h]
  exact hnodup.sublist (hps.map _)

/-! ## Answers from a world -/

/-- Whatever the provider answers with success is from the world, in its order: to a search by
category the places that it is for, as records in the current schema, and to one in the older shape
the places with its type, all if it has none, as records in the older schema. -/
structure Transport.Reports (t : Transport) (world : List Place) : Prop where
  current : ∀ {sent circle included excluded body},
    t sent (.nearby circle included excluded) = .answered 200 body →
      ∃ records, body.get? "places" = some (.arr records) ∧
        List.Forall₂ Place.IsRecord
          (world.filter fun p => CallDescriptor.answers ⟨included, excluded, .category⟩ p.types)
          records
  legacy : ∀ {sent circle type body},
    t sent (.legacyNearby circle type) = .answered 200 body →
      ∃ records, body.get? "places" = none ∧ body.get? "results" = some (.arr records) ∧
        List.Forall₂ Place.IsLegacyRecord (world.filter fun p => type.all p.types.contains) records

/-- What the current shape answers shows the places that the search is for. -/
theorem Transport.Reports.shown_current (h : t.Reports world)
    (hreply : t sent (.nearby circle included excluded) = .answered 200 body) :
    List.Forall₂ Place.IsShownBy
      (world.filter fun p => CallDescriptor.answers ⟨included, excluded, .category⟩ p.types)
      (Record.features body) := by
  obtain ⟨records, hplaces, hrecords⟩ := h.current hreply
  have hread : Record.records body = records := by
    simp [Record.records, hplaces, Json.items?]
  rw [Record.features, hread, List.forall₂_map_right_iff]
  exact hrecords.imp fun _ _ => Place.IsRecord.isShownBy

/-- What the older shape answers shows the places with its type; those with an excluded type are
taken out. -/
theorem Transport.Reports.shown_legacy (h : t.Reports world)
    (hreply : t sent (Request.nearby circle included excluded).toLegacy = .answered 200 body) :
    List.Forall₂ Place.IsShownBy
      ((world.filter fun p => included.head?.all p.types.contains).filter fun p =>
        !p.types.any excluded.contains)
      (legacyFeatures (.nearby circle included excluded) body) := by
  obtain ⟨records, hplaces, hresults, hrecords⟩ := h.legacy hreply
  have hread : Record.records body = records := by
    simp [Record.records, hplaces, hresults, Json.items?]
  have hshown : List.Forall₂ Place.IsShownBy
      (world.filter fun p => included.head?.all p.types.contains) (Record.features body) := by
    rw [Record.features, hread, List.forall₂_map_right_iff]
    exact hrecords.imp fun _ _ => Place.IsLegacyRecord.isShownBy
  refine List.rel_filter (fun p f hf => ?_) hshown
  have htypes := hf.types
  simp [Request.excludes, htypes]

/-- The places with the first included type and no excluded one are those that the search is for,
restricted to the places with the first included type. -/
theorem filter_answers_head (world : List Place) (included excluded : List String) :
    ((world.filter fun p => included.head?.all p.types.contains).filter fun p =>
        !p.types.any excluded.contains) =
      (world.filter fun p =>
        CallDescriptor.answers ⟨included, excluded, .category⟩ p.types).filter fun p =>
          included.head?.all p.types.contains := by
  rw [List.filter_filter, List.filter_filter]
  refine List.filter_congr fun p _ => ?_
  rw [Bool.eq_iff_iff]
  cases included with
  | nil => simp [CallDescriptor.answers]; grind
  | cons first rest => simp [CallDescriptor.answers]; grind

/-- If no more than one type is included, all places that the search is for have the first one. -/
theorem filter_head_eq_self (hle : included.length ≤ 1) (world : List Place)
    (excluded : List String) :
    (world.filter fun p =>
        CallDescriptor.answers ⟨included, excluded, .category⟩ p.types).filter
          (fun p => included.head?.all p.types.contains) =
      world.filter fun p => CallDescriptor.answers ⟨included, excluded, .category⟩ p.types := by
  rw [List.filter_eq_self]
  intro p hp
  obtain ⟨-, hanswers⟩ := List.mem_filter.mp hp
  obtain ⟨hincluded, -⟩ := CallDescriptor.answers_eq_true_iff.mp hanswers
  match included, hle with
  | [], _ => rfl
  | [type], _ => simpa using hincluded

/-- A call for a search by category to a provider with a world.  Whenever it is answered in the
current shape, it gives the places that the search is for.  If only the older shape has success, it
gives those of them that have the first included type, in the order of the world, or all of them if
none is included; these are all if it says that the answer is complete, and none of its features has
an excluded type. -/
theorem ids_execute_legacy (hreports : t.Reports world) (hnodup : (world.map Place.id).Nodup)
    (circle : Circle) (included excluded : List String) :
    let r := Request.nearby circle included excluded
    let answer := world.filter fun p =>
      CallDescriptor.answers ⟨included, excluded, .category⟩ p.types
    (∀ policy sent, ((execute t policy r).run sent).1.usedLegacy = false →
      ((execute t policy r).run sent).1.dataset.ids = answer.map Place.id) ∧
    ∀ policy sent, t.NeedsLegacy policy r sent →
      let outcome := ((execute t policy r).run sent).1
      outcome.usedLegacy = true ∧ outcome.failed = false ∧
      outcome.dataset.ids =
        (answer.filter fun p => included.head?.all p.types.contains).map Place.id ∧
      (outcome.complete = true → outcome.dataset.ids = answer.map Place.id) ∧
      ∀ f ∈ outcome.dataset.features, ∀ type ∈ f.properties.types, type ∉ excluded := by
  intro r answer
  constructor
  · intro policy sent hcurrent
    obtain ⟨sent', body, hreply, hfeatures⟩ := dataset_execute_of_current hcurrent
    have hshown := hreports.shown_current hreply
    rw [features_ofFeatures_of_shown hshown List.filter_sublist hnodup] at hfeatures
    rw [Dataset.ids, hfeatures]
    exact idsOf_of_shown hshown
  · intro policy sent hneeds outcome
    obtain ⟨sent', body, hreply, hfeatures, hlegacy, hfailed⟩ := run_execute_of_needsLegacy hneeds
    have hshown := hreports.shown_legacy hreply
    rw [features_ofFeatures_of_shown hshown (List.filter_sublist.trans List.filter_sublist)
      hnodup] at hfeatures
    have hids : outcome.dataset.ids =
        (answer.filter fun p => included.head?.all p.types.contains).map Place.id := by
      rw [Dataset.ids, hfeatures, ← filter_answers_head]
      exact idsOf_of_shown hshown
    refine ⟨hlegacy, hfailed, hids, fun hcomplete => ?_, fun f hf type htype hexcluded => ?_⟩
    · have hflag : outcome.complete = !(outcome.usedLegacy && r.legacyDropsIncluded) :=
        complete_execute
      have hle : included.length ≤ 1 := by
        rw [hflag, hlegacy] at hcomplete
        simpa [r, Request.legacyDropsIncluded] using hcomplete
      rw [hids, filter_head_eq_self hle]
    · rw [hfeatures, legacyFeatures, List.mem_filter, Bool.not_eq_true', List.any_eq_false] at hf
      exact hf.2 type htype (List.contains_iff_mem.mpr hexcluded)

/-! ## A provider that is down at first -/

/-- The record of a place in the older schema. -/
def Place.legacyRecord (p : Place) : Json :=
  Json.object [("place_id", .str p.id), ("types", .ofTexts p.types)]

/-- A provider that answers searches by category from a world in both shapes, those in the current
one only after so many requests. -/
def Transport.ofWorldAfter (n : Nat) (world : List Place) : Transport
  | sent, .nearby _ included excluded =>
    let found := world.filter fun p =>
      CallDescriptor.answers ⟨included, excluded, .category⟩ p.types
    if sent.length < n then .answered 429 .null
    else .answered 200 (Json.object [("places", .arr (found.map Place.record))])
  | _, .legacyNearby _ type =>
    let found := world.filter fun p => type.all p.types.contains
    .answered 200 (Json.object [("results", .arr (found.map Place.legacyRecord))])
  | _, _ => .lost "no such search"

theorem Place.isRecord_record (p : Place) : p.IsRecord p.record := by
  have hlt : ¬"types" < "id" := by decide
  have hrecord : p.record = .obj [("id", .str p.id), ("types", .ofTexts p.types)] := by
    simp [record, Json.object, Json.putMember, hlt]
  rw [hrecord]
  exact ⟨rfl, rfl, rfl, rfl⟩

theorem Place.isLegacyRecord_legacyRecord (p : Place) : p.IsLegacyRecord p.legacyRecord := by
  have hlt : ¬"types" < "place_id" := by decide
  have hrecord : p.legacyRecord = .obj [("place_id", .str p.id), ("types", .ofTexts p.types)] := by
    simp [legacyRecord, Json.object, Json.putMember, hlt]
  rw [hrecord]
  exact ⟨rfl, rfl⟩

theorem Transport.reports_ofWorldAfter (n : Nat) (world : List Place) :
    (ofWorldAfter n world).Reports world where
  current := by
    intro sent circle included excluded body h
    rw [ofWorldAfter] at h
    split at h
    · cases h
    · obtain ⟨-, rfl⟩ := Reply.answered.inj h
      refine ⟨_, rfl, ?_⟩
      rw [List.forall₂_map_right_iff, List.forall₂_same]
      exact fun p _ => p.isRecord_record
  legacy := by
    intro sent circle type body h
    obtain ⟨-, rfl⟩ := Reply.answered.inj h
    refine ⟨_, rfl, rfl, ?_⟩
    rw [List.forall₂_map_right_iff, List.forall₂_same]
    exact fun p _ => p.isLegacyRecord_legacyRecord

/-- A search for two types less a third, made twice of a provider that is down for the first one:
this one is answered in the older shape, without the place that has the second type only, and says
so; the later one is answered in the current shape. -/
theorem ids_execute_legacy_of_two_types :
    let world : List Place := [⟨"rb", ["restaurant", "bar"]⟩, ⟨"b", ["bar"]⟩,
      ⟨"r", ["restaurant"]⟩, ⟨"rc", ["restaurant", "cafe"]⟩, ⟨"h", ["hotel"]⟩]
    let t := Transport.ofWorldAfter 3 world
    let policy : RetryPolicy := { maxRetries := 1 }
    let r := Request.nearby ⟨⟨59.33, 18.06⟩, 1500.0⟩ ["restaurant", "bar"] ["cafe"]
    let first := (execute t policy r).run []
    let second := (execute t policy r).run first.2
    t.Reports world ∧ (world.map Place.id).Nodup ∧ t.NeedsLegacy policy r [] ∧
      first.1.complete = false ∧ first.1.dataset.ids = ["rb", "r"] ∧
      (∀ f ∈ first.1.dataset.features, ∀ type ∈ f.properties.types, type ∉ ["cafe"]) ∧
      second.1.usedLegacy = false ∧ second.1.dataset.ids = ["rb", "b", "r"] := by
  intro world t policy r first second
  have hreports : t.Reports world := Transport.reports_ofWorldAfter 3 world
  have hnodup : (world.map Place.id).Nodup := by decide
  have hneeds : t.NeedsLegacy policy r [] := by
    refine ⟨fun n hn => ?_, ⟨_, rfl⟩⟩
    have hn : n = 0 ∨ n = 1 := by
      have hle : n ≤ 1 := hn
      omega
    rcases hn with rfl | rfl <;> rintro ⟨body, hbody⟩ <;> cases hbody
  obtain ⟨hcurrent, hlegacy⟩ :=
    ids_execute_legacy hreports hnodup ⟨⟨59.33, 18.06⟩, 1500.0⟩ ["restaurant", "bar"] ["cafe"]
  obtain ⟨-, -, hids, -, hexcluded⟩ := hlegacy policy [] hneeds
  have hpartial : first.1.complete = false := by decide +kernel
  have hused : second.1.usedLegacy = false := by decide +kernel
  exact ⟨hreports, hnodup, hneeds, hpartial, hids, hexcluded, hused,
    hcurrent policy first.2 hused⟩

end PlaceSearch
