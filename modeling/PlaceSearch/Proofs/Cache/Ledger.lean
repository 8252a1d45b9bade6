import PlaceSearch.Cache.Resolver
import PlaceSearch.Proofs.Process.Cover
import PlaceSearch.Proofs.Provider.Execute

/-!
# Where answers come from

The resolver gives an answer without the calls it goes back to: some were made for it, others were
made before and their answers found in the store.  Here it is run with a ledger beside its session.
In the ledger stand all calls that were made and all datasets that were filed, each with the calls
whose answers went into it.  What is found under a key goes back to the calls behind all that was
filed under this key.

The ledger takes no part in what the resolver does: the processes with a ledger cover those of the
resolver, turn by turn, so that they also follow the same schedule.
-/

namespace PlaceSearch

/-- A call to the provider: what was asked for, and how it ended. -/
structure ProviderCall where
  request : Request
  outcome : Outcome

namespace ProviderCall

/-- The call had success, and nothing was left out of its answer. -/
def IsWhole (c : ProviderCall) : Prop :=
  c.outcome.failed = false ∧ c.outcome.complete = true

instance (c : ProviderCall) : Decidable c.IsWhole :=
  inferInstanceAs (Decidable (_ ∧ _))

/-- The call ended as a provider lets it end, whatever others sent meanwhile. -/
def IsMadeBy {σ : Type} (r : Resolver σ) (c : ProviderCall) : Prop :=
  (execute r.transport r.policy c.request).Returns c.outcome

/-- An answer of a provider is complete unless it has the older shape and this one leaves out an
included type. -/
theorem IsMadeBy.complete_eq {σ : Type} {r : Resolver σ} {c : ProviderCall} (h : c.IsMadeBy r) :
    c.outcome.complete = !(c.outcome.usedLegacy && c.request.legacyDropsIncluded) := by
  obtain ⟨g, hg⟩ := exists_isOf_of_returns h
  exact hg.complete_eq

end ProviderCall

/-- A dataset that was filed under a key, with the calls whose answers went into it. -/
structure Filing where
  key : CacheKey
  dataset : Dataset
  calls : List ProviderCall

/-- What stands in a ledger: a call that was made, or a dataset that was filed. -/
inductive Entry where
  | made (c : ProviderCall)
  | filed (f : Filing)

/-- A session with all that was made and filed in it, latest first. -/
structure Ledger (σ : Type) where
  session : Session σ
  entries : List Entry := []

namespace Ledger

variable {σ : Type} {ledger : Ledger σ}

/-- All calls that were made, latest first. -/
def calls (ledger : Ledger σ) : List ProviderCall :=
  ledger.entries.filterMap fun
    | .made c => some c
    | .filed _ => none

/-- All datasets that were filed, latest first. -/
def filings (ledger : Ledger σ) : List Filing :=
  ledger.entries.filterMap fun
    | .made _ => none
    | .filed f => some f

theorem mem_filings {f : Filing} : f ∈ ledger.filings ↔ .filed f ∈ ledger.entries := by
  rw [filings, List.mem_filterMap]
  constructor
  · rintro ⟨_ | f', hmem, heq⟩
    · cases heq
    · obtain rfl := Option.some.inj heq
      exact hmem
  · exact fun hmem => ⟨_, hmem, rfl⟩

theorem mem_calls {c : ProviderCall} : c ∈ ledger.calls ↔ .made c ∈ ledger.entries := by
  rw [calls, List.mem_filterMap]
  constructor
  · rintro ⟨c' | _, hmem, heq⟩
    · obtain rfl := Option.some.inj heq
      exact hmem
    · cases heq
  · exact fun hmem => ⟨_, hmem, rfl⟩

/-- Entries add their calls and their filings. -/
theorem exists_of_entries_eq {ledger' : Ledger σ} {own : List Entry}
    (h : ledger'.entries = own ++ ledger.entries) :
    ∃ made filed, ledger'.calls = made ++ ledger.calls ∧
      ledger'.filings = filed ++ ledger.filings ∧ (∀ c, c ∈ made ↔ .made c ∈ own) ∧
      ∀ f, f ∈ filed ↔ .filed f ∈ own := by
  let part : Ledger σ := { ledger with entries := own }
  refine ⟨part.calls, part.filings, ?_, ?_, fun c => mem_calls, fun f => mem_filings⟩
  · rw [calls, h, List.filterMap_append]
    rfl
  · rw [filings, h, List.filterMap_append]
    rfl

/-- The calls behind what was filed under a key. -/
def callsBehind (ledger : Ledger σ) (key : CacheKey) : List ProviderCall :=
  (ledger.filings.filter (·.key = key)).flatMap (·.calls)

end Ledger

/-- An answer with the calls whose answers went into it. -/
structure Sourced where
  answer : Resolved
  calls : List ProviderCall

/-! ## Resolving with a ledger -/

namespace Traced

variable {σ : Type} (r : Resolver σ)

/-- The stored dataset of a key, with the calls behind it. -/
def lookup (key : CacheKey) : StateM (Ledger σ) (Option (Dataset × List ProviderCall)) :=
  fun ledger =>
    let (found, session) := (r.lookup key).run ledger.session
    (found.map (·, ledger.callsBehind key), { ledger with session })

/-- A call to the provider stands in the ledger from its last request on. -/
def call (request : Request) : Process (Ledger σ) ProviderCall :=
  (ProviderCall.mk request <$> (r.call request).within Ledger.session fun ledger session =>
    { ledger with session }).noting fun c ledger =>
      { ledger with entries := .made c :: ledger.entries }

/-- What is kept stands in the ledger too. -/
def keepWhole (key : CacheKey) (sourced : Sourced) : StateM (Ledger σ) Unit := fun ledger =>
  let (_, session) := (r.keepWhole key sourced.answer).run ledger.session
  let filing : Filing := ⟨key, sourced.answer.dataset, sourced.calls⟩
  if sourced.answer.cacheable && !sourced.answer.dataset.isDegraded then
    ((), { ledger with session, entries := .filed filing :: ledger.entries })
  else ((), { ledger with session })

/-- The answer to one phrase. -/
def fetchPhrase (geo : Geo) (phrase : String) : Process (Ledger σ) Sourced := do
  let key := CacheKey.partialAnswer .text [phrase] geo
  match ← lookup r key with
  | some (d, calls) => return ⟨.ofCached d, calls⟩
  | none =>
    let c ← call r (.ofPhrase geo phrase)
    let sourced : Sourced := ⟨.ofOutcome c.outcome, [c]⟩
    keepWhole r key sourced
    return sourced

/-- The stored answer to the included types less the one to the excluded types. -/
def composed (d : CallDescriptor) (geo : Geo) :
    Process (Ledger σ) (Option (Dataset × List ProviderCall)) := do
  if d.excluded.isEmpty then return none
  match ← lookup r (.partialAnswer .category d.included geo) with
  | none => return none
  | some (included, calls) =>
    match ← lookup r (.partialAnswer .category d.excluded geo) with
    | none => return none
    | some (excluded, calls') => return some (included.difference excluded, calls ++ calls')

/-- The answer to a search by category. -/
def resolveCategory (d : CallDescriptor) (geo : Geo) : Process (Ledger σ) Sourced := do
  match ← composed r d geo with
  | some (dataset, calls) => return ⟨.ofCached dataset, calls⟩
  | none =>
    let c ← call r (.ofCategories geo d.included d.excluded)
    return ⟨.ofOutcome c.outcome, [c]⟩

/-- The answer to a search by text. -/
def resolveText (d : CallDescriptor) (geo : Geo) : Process (Ledger σ) Sourced := do
  if d.included.isEmpty then return ⟨{}, []⟩
  let paged := d.included.length = 1
  let included ← d.included.mapM (fetchPhrase r (if paged then geo else geo.firstPage))
  let excluded ← d.excluded.mapM (fetchPhrase r geo.firstPage)
  let datasets (parts : List Sourced) := parts.map (·.answer.dataset)
  return ⟨.combine ((included ++ excluded).map (·.answer))
      ((Dataset.common (datasets included)).difference (Dataset.union (datasets excluded)))
      (if paged then included.head?.bind (·.answer.nextCursor) else none),
    (included ++ excluded).flatMap (·.calls)⟩

/-- The answer to a call. -/
def resolve (d : CallDescriptor) (geo : Geo) : Process (Ledger σ) Sourced := do
  let key := CacheKey.ofDescriptor d geo
  match ← lookup r key with
  | some (dataset, calls) => return ⟨.ofCached dataset, calls⟩
  | none =>
    let sourced ← match d.kind with
      | .category => resolveCategory r d geo
      | .text => resolveText r d geo
    keepWhole r key sourced
    return sourced

/-! ## The ledger takes no part -/

theorem covers_lookup (key : CacheKey) :
    (liftM (lookup r key) : Process (Ledger σ) _).Covers Ledger.session (Option.map (·.1))
      (liftM (r.lookup key)) := by
  refine .lift fun ledger => ?_
  have hfound : ((lookup r key).run ledger).1.map (·.1) =
      ((r.lookup key).run ledger.session).1.map id := Option.map_map ..
  rw [hfound, Option.map_id]
  rfl

theorem covers_call (request : Request) :
    (call r request).Covers Ledger.session (·.outcome) (r.call request) := by
  have hcall : ((r.call request).within Ledger.session fun ledger session =>
      { ledger with session }).Covers Ledger.session id (r.call request) :=
    .within (fun _ _ => rfl) _
  have hmap := hcall.map (k := ProviderCall.mk request) (h := (·.outcome)) fun _ => rfl
  exact hmap.noting fun _ _ => rfl

theorem run_keepWhole (key : CacheKey) (sourced : Sourced) (ledger : Ledger σ) :
    (keepWhole r key sourced).run ledger =
      if sourced.answer.cacheable && !sourced.answer.dataset.isDegraded then
        ((), { ledger with
          session := ((r.keepWhole key sourced.answer).run ledger.session).2
          entries := .filed ⟨key, sourced.answer.dataset, sourced.calls⟩ :: ledger.entries })
      else ((), { ledger with
        session := ((r.keepWhole key sourced.answer).run ledger.session).2 }) := rfl

theorem covers_keepWhole (key : CacheKey) (sourced : Sourced) :
    (liftM (keepWhole r key sourced) : Process (Ledger σ) _).Covers Ledger.session id
      (liftM (r.keepWhole key sourced.answer)) := by
  refine .lift fun ledger => ?_
  rw [run_keepWhole]
  split <;> rfl

theorem covers_fetchPhrase (geo : Geo) (phrase : String) :
    (fetchPhrase r geo phrase).Covers Ledger.session (·.answer) (r.fetchPhrase geo phrase) := by
  rw [fetchPhrase, Resolver.fetchPhrase]
  refine (covers_lookup r _).bind fun found => ?_
  cases found with
  | some found => exact .pure rfl
  | none =>
    refine (covers_call r _).bind fun c => ?_
    exact (covers_keepWhole r _ _).bind fun _ => .pure rfl

theorem covers_composed (d : CallDescriptor) (geo : Geo) :
    (composed r d geo).Covers Ledger.session (Option.map (·.1)) (r.composed d geo) := by
  rw [composed, Resolver.composed]
  split
  · exact .pure rfl
  · refine (covers_lookup r _).bind fun found => ?_
    cases found with
    | none => exact .pure rfl
    | some included =>
      refine (covers_lookup r _).bind fun found => ?_
      cases found <;> exact .pure rfl

theorem covers_resolveCategory (d : CallDescriptor) (geo : Geo) :
    (resolveCategory r d geo).Covers Ledger.session (·.answer) (r.resolveCategory d geo) := by
  rw [resolveCategory, Resolver.resolveCategory]
  refine (covers_composed r d geo).bind fun found => ?_
  cases found with
  | some found => exact .pure rfl
  | none => exact (covers_call r _).bind fun c => .pure rfl

theorem covers_resolveText (d : CallDescriptor) (geo : Geo) :
    (resolveText r d geo).Covers Ledger.session (·.answer) (r.resolveText d geo) := by
  rw [resolveText, Resolver.resolveText]
  split
  · exact .pure rfl
  · refine (Process.Covers.mapM fun x _ => covers_fetchPhrase r _ x).bind fun included => ?_
    refine (Process.Covers.mapM fun x _ => covers_fetchPhrase r _ x).bind fun excluded => .pure ?_
    simp only [List.map_append, List.map_map, List.head?_map, Option.bind_map]
    rfl

/-- The answer to a call is found in the same way without the ledger. -/
theorem covers_resolve (d : CallDescriptor) (geo : Geo) :
    (resolve r d geo).Covers Ledger.session (·.answer) (r.resolve d geo) := by
  rw [resolve, Resolver.resolve]
  refine (covers_lookup r _).bind fun found => ?_
  cases found with
  | some found => exact .pure rfl
  | none =>
    cases d.kind with
    | category =>
      exact (covers_resolveCategory r d geo).bind fun sourced =>
        (covers_keepWhole r _ sourced).bind fun _ => .pure rfl
    | text =>
      exact (covers_resolveText r d geo).bind fun sourced =>
        (covers_keepWhole r _ sourced).bind fun _ => .pure rfl

end Traced

end PlaceSearch
