import Mathlib.Data.List.Nodup
import PlaceSearch.Cache.Resolver
import PlaceSearch.Call.Descriptor
import PlaceSearch.Proofs.Dataset.Ids
import PlaceSearch.Proofs.Provider.Execute

/-!
# Providers with a world

A provider that answers every search by category at once, from a finite world of places: by the
places with one of the included types, all if none is included, and with no excluded one.  One
such provider is written down for every world.

## Main definitions

* `Place` — an id and types.
* `Answered world included excluded id` — a place with that id is an answer to a search.
* `Transport.Serves t world` — the provider answers searches by category from the world.
* `Transport.ofWorld world` — a provider that does.
-/

namespace PlaceSearch

/-- A place of a world. -/
structure Place where
  id : String
  types : List String

/-- Places of a world are told apart by their ids. -/
theorem eq_of_id_eq {world : List Place} (h : (world.map Place.id).Nodup) {p q : Place}
    (hp : p ∈ world) (hq : q ∈ world) (hid : p.id = q.id) : p = q :=
  List.inj_on_of_nodup_map h hp hq hid

theorem CallDescriptor.answers_eq_true_iff {d : CallDescriptor} {types : List String} :
    d.answers types = true ↔
      (d.included = [] ∨ ∃ t ∈ d.included, t ∈ types) ∧ ∀ t ∈ d.excluded, t ∉ types := by
  simp [answers]

/-- Whether a place of the world with that id is an answer to a search by category. -/
def Answered (world : List Place) (included excluded : List String) (id : String) : Prop :=
  ∃ p ∈ world, p.id = id ∧
    CallDescriptor.answers ⟨included, excluded, .category⟩ p.types = true

/-- Whatever was asked before, the provider answers a search by category with status 200 and
exactly the places of the world that the search is for. -/
def Transport.Serves (t : Transport) (world : List Place) : Prop :=
  ∀ sent circle included excluded, ∃ body,
    t sent (.nearby circle included excluded) = .answered 200 body ∧
      ∀ id, id ∈ Dataset.idsOf (Record.features body) ↔ Answered world included excluded id

/-- The ids that a call to a provider with a world gives. -/
theorem Outcome.IsOf.mem_ids_of_serves {t : Transport} {policy : RetryPolicy} {world : List Place}
    (hserves : t.Serves world) {circle : Circle} {included excluded : List String} {o : Outcome}
    {g : List Exchange} (h : o.IsOf t policy (.nearby circle included excluded) g) (id : String) :
    id ∈ o.dataset.ids ↔ Answered world included excluded id := by
  obtain ⟨sent, body, hreply, rfl⟩ := h.eq_of_answered fun sent => by
    obtain ⟨body, hreply, -⟩ := hserves sent circle included excluded
    exact ⟨body, hreply⟩
  obtain ⟨body', hreply', hids⟩ := hserves sent circle included excluded
  obtain ⟨-, rfl⟩ := Reply.answered.inj (hreply.symm.trans hreply')
  rw [← hids]
  exact Dataset.mem_ids_ofFeatures

/-! ## A provider for every world -/

/-- The record of a place. -/
def Place.record (p : Place) : Json :=
  Json.object [("id", .str p.id), ("types", .ofTexts p.types)]

/-- A provider that answers searches by category from a world, and nothing else. -/
def Transport.ofWorld (world : List Place) : Transport
  | _, .nearby _ included excluded =>
    let found := world.filter fun p =>
      CallDescriptor.answers ⟨included, excluded, .category⟩ p.types
    .answered 200 (Json.object [("places", .arr (found.map Place.record))])
  | _, _ => .lost "no such search"

theorem Place.id?_toFeature (p : Place) : (Record.toFeature p.record).id? = some p.id := by
  have hrecord : p.record = .obj [("id", .str p.id), ("types", .ofTexts p.types)] := by
    have hlt : ¬"types" < "id" := by decide
    have hne : ¬"types" = "id" := by decide
    simp only [record, Json.object, List.foldl_cons, List.foldl_nil, Json.putMember, if_neg hlt,
      if_neg hne]
  rw [hrecord]
  rfl

theorem Transport.serves_ofWorld (world : List Place) : (ofWorld world).Serves world := by
  intro sent circle included excluded
  refine ⟨_, rfl, fun id => ?_⟩
  have hrecords : ∀ rs : List Json, Record.records (Json.object [("places", .arr rs)]) = rs :=
    fun _ => rfl
  rw [Record.features, hrecords, Dataset.mem_idsOf, List.map_map]
  constructor
  · intro h
    obtain ⟨f, hf, hid⟩ := h
    obtain ⟨p, hp, rfl⟩ := List.mem_map.mp hf
    obtain ⟨hworld, hanswers⟩ := List.mem_filter.mp hp
    rw [Function.comp_apply, Place.id?_toFeature] at hid
    exact ⟨p, hworld, Option.some.inj hid, hanswers⟩
  · rintro ⟨p, hworld, rfl, hanswers⟩
    exact ⟨_, List.mem_map_of_mem (List.mem_filter.mpr ⟨hworld, hanswers⟩), p.id?_toFeature⟩

end PlaceSearch
