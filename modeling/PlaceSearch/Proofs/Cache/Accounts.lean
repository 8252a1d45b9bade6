import PlaceSearch.Proofs.Cache.Key
import PlaceSearch.Proofs.Cache.Ledger
import PlaceSearch.Proofs.Cache.Stored
import PlaceSearch.Proofs.Process.Log

/-!
# What is filed

An answer carries two flags: some call behind it ended in a stand-in, or left something out.  The
stand-ins themselves can get lost when answers are put together, so what keeps reduced answers out
of the store is that the flags tell the truth about all calls behind an answer.  Then all calls
behind what is filed were whole, and so are those behind what is found later on.

The entries of the ledger are a log to which all calls of a search write, in the order in which
their turns come.  The entries that a process has written itself are accounted for by the answers
that it has so far.
-/

namespace PlaceSearch

variable {σ α β : Type}

/-! ## Statements on what is filed -/

/-- Whether the statement holds depends only on what is stored and filed, not on the calls that were
made. -/
def Ledger.IsOfFiles (P : Ledger σ → Prop) : Prop :=
  ∀ ledger ledger' : Ledger σ, ledger'.session.store = ledger.session.store →
    ledger'.filings = ledger.filings → P ledger → P ledger'

/-- Every act leaves a part of the state as it is. -/
def Discipline.leaving {S δ : Type} (view : S → δ) : Discipline S Unit where
  assumes _ _ := True
  allows _ s s' _ := view s' = view s

/-- A call leaves the store alone. -/
theorem Resolver.leaves_call (r : Resolver σ) (request : Request) :
    (r.call request).Obeys (.leaving Session.store)
      (fun outcome _ => (execute r.transport r.policy request).Returns outcome) () :=
  (obeys_execute r.transport r.policy request).and_returns.within (fun _ _ => True)
    (fun _ _ => trivial) (fun _ _ _ => ⟨(), rfl, trivial⟩) (fun _ h => h.1) trivial

namespace Traced

variable {r : Resolver σ} {P : Ledger σ → Prop} {F : List Entry → Prop}

/-- A call is made, and nothing is filed. -/
theorem logs_call (hP : Ledger.IsOfFiles P) (request : Request) :
    Logs Ledger.entries P F (call r request) fun c own => c.IsMadeBy r ∧
      ∃ own', F own' ∧ own = .made c :: own' := by
  intro own hown
  have hcall : ((r.call request).within Ledger.session fun ledger session =>
      { ledger with session }).Obeys (.logging Ledger.entries P)
        (fun outcome own' => own' = own ∧
          (execute r.transport r.policy request).Returns outcome) own := by
    refine (r.leaves_call request).within (fun own' _ => own' = own) (fun _ _ => trivial) ?_
      (fun hsame hreturns => ⟨hsame, hreturns⟩) rfl
    rintro _ _ ledger session _ rfl ⟨hs, -⟩ hstore
    exact ⟨_, ⟨hP ledger _ hstore rfl hs, [], rfl, rfl⟩, rfl⟩
  have hmade : (ProviderCall.mk request <$> (r.call request).within Ledger.session
      fun ledger session => { ledger with session }).Obeys (.logging Ledger.entries P)
        (fun c own' => own' = own ∧ c.IsMadeBy r) own := by
    rw [map_eq_pure_bind]
    exact hcall.bind fun _ _ => id
  refine hmade.noting (fun own' own'' => own' = own'') (fun h hs => h ▸ hs) ?_ ?_ ?_ rfl
  · rintro own' _ ledger ledger' own'' rfl - hallowed
    exact ⟨own'', hallowed, rfl⟩
  · rintro c own' _ ledger ledger' own'' rfl - ⟨hs, new, hlog, rfl⟩ ⟨hown', hc⟩
    refine ⟨.made c :: (new ++ own'), ⟨hP ledger' _ rfl rfl hs, .made c :: new, ?_, rfl⟩, hc, own,
      hown, ?_⟩
    · exact congrArg (Entry.made c :: ·) hlog
    · rw [hown']
  · rw [Resolver.call, execute, callLoop]
    rfl

end Traced

/-! ## Answers that account for calls -/

/-- All calls behind what was filed are whole, nothing that was filed holds a stand-in, and what the
store may give back was filed. -/
structure Ledger.IsSound (r : Resolver σ) (holds : σ → CacheKey → Dataset → Prop)
    (ledger : Ledger σ) : Prop where
  whole : ∀ f ∈ ledger.filings, ∀ c ∈ f.calls, c.IsMadeBy r ∧ c.IsWhole
  unmarked : ∀ f ∈ ledger.filings, f.dataset.isDegraded = false
  held : ∀ key d, holds ledger.session.store key d →
    ∃ f ∈ ledger.filings, f.key = key ∧ f.dataset = d

theorem Ledger.isOfFiles_isSound (r : Resolver σ) (holds : σ → CacheKey → Dataset → Prop) :
    IsOfFiles (IsSound r holds) := by
  intro ledger ledger' hstore hfilings h
  constructor
  · rw [hfilings]
    exact h.whole
  · rw [hfilings]
    exact h.unmarked
  · rw [hstore, hfilings]
    exact h.held

/-- A key of a call, or of an answer to a part of one. -/
def CacheKey.IsOfCall (key : CacheKey) : Prop :=
  ∃ (kind : SearchKind) (geo : Geo) (included excluded : List String),
    key = .build kind.name geo included excluded

/-- The flags of the answer tell the truth about the calls behind it. -/
def Sourced.IsTrue (r : Resolver σ) (sourced : Sourced) : Prop :=
  ∀ c ∈ sourced.calls, c.IsMadeBy r ∧
    (sourced.answer.degraded = false → c.outcome.failed = false) ∧
    (sourced.answer.incomplete = false → c.outcome.complete = true)

namespace Sourced.IsTrue

variable {r : Resolver σ}

theorem isWhole {sourced : Sourced} (h : sourced.IsTrue r)
    (hcacheable : sourced.answer.cacheable = true) : ∀ c ∈ sourced.calls, c.IsWhole := by
  intro c hc
  obtain ⟨-, hfailed, hcomplete⟩ := h c hc
  rw [Resolved.cacheable, Bool.and_eq_true, Bool.not_eq_true', Bool.not_eq_true'] at hcacheable
  exact ⟨hfailed hcacheable.1, hcomplete hcacheable.2⟩

/-- An answer that was found is as true as what is filed. -/
theorem ofCached (d : Dataset) {calls : List ProviderCall}
    (hcalls : ∀ c ∈ calls, c.IsMadeBy r ∧ c.IsWhole) : IsTrue r ⟨.ofCached d, calls⟩ :=
  fun c hc => ⟨(hcalls c hc).1, fun _ => (hcalls c hc).2.1, fun _ => (hcalls c hc).2.2⟩

theorem ofOutcome {c : ProviderCall} (hc : c.IsMadeBy r) : IsTrue r ⟨.ofOutcome c.outcome, [c]⟩ :=
  List.forall_mem_singleton.mpr ⟨hc, id, fun h => by simpa [Resolved.ofOutcome] using h⟩

theorem combine {parts : List Sourced} (h : ∀ part ∈ parts, part.IsTrue r) (dataset : Dataset)
    (cursor : Option String) :
    IsTrue r ⟨.combine (parts.map (·.answer)) dataset cursor, parts.flatMap (·.calls)⟩ := by
  intro c hc
  obtain ⟨part, hpart, hmem⟩ := List.mem_flatMap.mp hc
  obtain ⟨hmade, hfailed, hcomplete⟩ := h part hpart c hmem
  refine ⟨hmade, fun hflag => hfailed ?_, fun hflag => hcomplete ?_⟩
  · simp only [Resolved.combine, List.any_map, List.any_eq_false] at hflag
    simpa using hflag part hpart
  · simp only [Resolved.combine, List.any_map, List.any_eq_false] at hflag
    simpa using hflag part hpart

end Sourced.IsTrue

/-- The answers account for what a process has written: the calls that it made are behind them,
their flags are true, and it filed under keys of calls only. -/
structure Accounts (r : Resolver σ) (parts : List Sourced) (own : List Entry) : Prop where
  made : ∀ c, .made c ∈ own → ∃ part ∈ parts, c ∈ part.calls
  flags : ∀ part ∈ parts, part.IsTrue r
  keys : ∀ f, .filed f ∈ own → f.key.IsOfCall

namespace Accounts

variable {r : Resolver σ} {parts : List Sourced} {own : List Entry}

theorem nil : Accounts r [] [] :=
  ⟨by simp, by simp, by simp⟩

/-- One more answer, for which no call was made. -/
theorem concat (h : Accounts r parts own) {sourced : Sourced} (htrue : sourced.IsTrue r) :
    Accounts r (parts ++ [sourced]) own where
  made c hc := by
    obtain ⟨part, hpart, hmem⟩ := h.made c hc
    exact ⟨part, List.mem_append_left _ hpart, hmem⟩
  flags := List.forall_mem_append.mpr ⟨h.flags, List.forall_mem_singleton.mpr htrue⟩
  keys := h.keys

/-- One more answer, with the call that was made for it. -/
theorem concat_made (h : Accounts r parts own) {c : ProviderCall} (hc : c.IsMadeBy r) :
    Accounts r (parts ++ [⟨.ofOutcome c.outcome, [c]⟩]) (.made c :: own) where
  made c' hc' := by
    rcases List.mem_cons.mp hc' with heq | hc'
    · obtain rfl := Entry.made.inj heq
      exact ⟨_, List.mem_append_right _ (List.mem_singleton_self _), List.mem_singleton_self c'⟩
    · exact (h.concat (.ofOutcome hc)).made c' hc'
  flags := (h.concat (.ofOutcome hc)).flags
  keys f hf := h.keys f (by simpa using hf)

/-- One more dataset, filed under the key of a call. -/
theorem cons_filed (h : Accounts r parts own) {f : Filing} (hf : f.key.IsOfCall) :
    Accounts r parts (.filed f :: own) where
  made c hc := h.made c (by simpa using hc)
  flags := h.flags
  keys f' hf' := by
    rcases List.mem_cons.mp hf' with heq | hf'
    · obtain rfl := Entry.filed.inj heq
      exact hf
    · exact h.keys f' hf'

/-- An answer that is put together accounts for what its parts account for. -/
theorem combine (h : Accounts r parts own) (dataset : Dataset) (cursor : Option String) :
    Accounts r [⟨.combine (parts.map (·.answer)) dataset cursor, parts.flatMap (·.calls)⟩]
      own where
  made c hc := by
    obtain ⟨part, hpart, hmem⟩ := h.made c hc
    exact ⟨_, List.mem_singleton_self _, List.mem_flatMap.mpr ⟨part, hpart, hmem⟩⟩
  flags := List.forall_mem_singleton.mpr (.combine h.flags dataset cursor)
  keys := h.keys

/-- Some answers account for all that was written by those that found them. -/
theorem of_forall₂ {xs : List α} {ends : List (Sourced × List Entry)}
    (hperm : own.Perm (ends.flatMap (·.2)))
    (h : List.Forall₂ (fun _ e => Accounts r [e.1] e.2) xs ends) :
    Accounts r (ends.map (·.1)) own := by
  have hends : ∀ e ∈ ends, Accounts r [e.1] e.2 := forall_mem_of_forall₂ h
  have hmem : ∀ entry, entry ∈ own → ∃ e ∈ ends, entry ∈ e.2 := fun entry hentry =>
    List.mem_flatMap.mp (hperm.mem_iff.mp hentry)
  constructor
  · intro c hc
    obtain ⟨e, he, hc⟩ := hmem _ hc
    obtain ⟨part, hpart, hcalls⟩ := (hends e he).made c hc
    obtain rfl := List.mem_singleton.mp hpart
    exact ⟨e.1, List.mem_map_of_mem he, hcalls⟩
  · intro part hpart
    obtain ⟨e, he, rfl⟩ := List.mem_map.mp hpart
    exact (hends e he).flags e.1 (List.mem_singleton_self _)
  · intro f hf
    obtain ⟨e, he, hf⟩ := hmem _ hf
    exact (hends e he).keys f hf

end Accounts

/-- A whole answer without a stand-in is written to the store. -/
theorem Resolver.run_keepWhole (r : Resolver σ) (key : CacheKey) (answer : Resolved)
    (s : Session σ) :
    (r.keepWhole key answer).run s =
      if answer.cacheable && !answer.dataset.isDegraded then
        ((), { s with store := ((r.store.put key answer.dataset).run s.store).2 })
      else ((), s) := by
  unfold keepWhole keep
  cases answer.cacheable <;> cases answer.dataset.isDegraded <;> rfl

namespace Traced

variable {r : Resolver σ} {holds : σ → CacheKey → Dataset → Prop} {F : List Entry → Prop}
  {parts : List Sourced}

/-- What is found goes back to whole calls. -/
theorem accounts_lookup (hstore : r.store.IsHonest holds) (key : CacheKey) :
    Logs Ledger.entries (Ledger.IsSound r holds) F (liftM (lookup r key)) fun found own =>
      F own ∧ ∀ d calls, found = some (d, calls) → ∀ c ∈ calls, c.IsMadeBy r ∧ c.IsWhole := by
  refine .lift fun own ledger hown h _ => ?_
  refine ⟨⟨h.whole, h.unmarked, fun k d hd => h.held k d (hstore.after_get hd)⟩, [], rfl, hown,
    fun d calls hfound c hc => ?_⟩
  obtain ⟨d', -, hd⟩ := Option.map_eq_some_iff.mp hfound
  obtain ⟨rfl, rfl⟩ := Prod.mk.inj hd
  obtain ⟨f, hf, hmem⟩ := List.mem_flatMap.mp hc
  exact h.whole f (List.mem_filter.mp hf).1 c hmem

/-- What is kept goes back to whole calls. -/
theorem accounts_keepWhole (hstore : r.store.IsHonest holds) (key : CacheKey) {sourced : Sourced}
    (htrue : sourced.IsTrue r) :
    Logs Ledger.entries (Ledger.IsSound r holds) F (liftM (keepWhole r key sourced)) fun _ own =>
      F own ∨ (∀ c ∈ sourced.calls, c.IsWhole) ∧ ∃ own', F own' ∧
        own = .filed ⟨key, sourced.answer.dataset, sourced.calls⟩ :: own' := by
  refine .lift fun own ledger hown h _ => ?_
  have hkeep := r.run_keepWhole key sourced.answer ledger.session
  cases hkept : sourced.answer.cacheable && !sourced.answer.dataset.isDegraded with
  | false =>
    rw [hkept, if_neg Bool.false_ne_true] at hkeep
    have hrun : (keepWhole r key sourced).run ledger = ((), ledger) := by
      rw [run_keepWhole, hkept, hkeep]
      rfl
    rw [hrun]
    exact ⟨h, [], rfl, .inl hown⟩
  | true =>
    obtain ⟨hcacheable, hunmarked⟩ := (Bool.and_eq_true _ _).mp hkept
    have hwhole := htrue.isWhole hcacheable
    rw [hkept, if_pos rfl] at hkeep
    rw [run_keepWhole, hkept, hkeep, if_pos rfl]
    refine ⟨⟨?_, ?_, fun k d hd => ?_⟩, [_], rfl, .inr ⟨hwhole, own, hown, rfl⟩⟩
    · exact List.forall_mem_cons.mpr ⟨fun c hc => ⟨(htrue c hc).1, hwhole c hc⟩, h.whole⟩
    · exact List.forall_mem_cons.mpr ⟨by simpa using hunmarked, h.unmarked⟩
    · rcases hstore.after_put hd with hd | ⟨rfl, rfl⟩
      · obtain ⟨f, hf, hfiled⟩ := h.held k d hd
        exact ⟨f, List.mem_cons_of_mem _ hf, hfiled⟩
      · exact ⟨_, List.mem_cons_self, rfl, rfl⟩

/-- An answer that is kept under the key of a call still accounts for all calls. -/
theorem accounts_kept (hstore : r.store.IsHonest holds) {key : CacheKey} (hkey : key.IsOfCall)
    (parts : List Sourced) (sourced : Sourced) :
    Logs Ledger.entries (Ledger.IsSound r holds) (Accounts r (parts ++ [sourced]))
      (do keepWhole r key sourced; return sourced)
      fun sourced => Accounts r (parts ++ [sourced]) := by
  intro own hown
  have htrue : sourced.IsTrue r := hown.flags sourced (by simp)
  refine (accounts_keepWhole hstore key htrue).bind (fun _ => .pure fun own' hkept => ?_) own hown
  rcases hkept with hkept | ⟨-, own', hkept, rfl⟩
  · exact hkept
  · exact hkept.cons_filed hkey

theorem accounts_fetchPhrase (hstore : r.store.IsHonest holds) (geo : Geo) (phrase : String) :
    Logs Ledger.entries (Ledger.IsSound r holds) (Accounts r parts) (fetchPhrase r geo phrase)
      fun sourced => Accounts r (parts ++ [sourced]) := by
  rw [fetchPhrase]
  refine (accounts_lookup hstore _).bind fun found => ?_
  cases found with
  | some found =>
    refine .pure ?_
    rintro own ⟨hown, hcalls⟩
    exact hown.concat (.ofCached found.1 (hcalls _ _ rfl))
  | none =>
    refine (logs_call (Ledger.isOfFiles_isSound r holds) _).bind fun c => ?_
    refine (accounts_kept hstore ⟨_, _, _, _, rfl⟩ parts _).weaken ?_ fun _ _ => id
    rintro _ ⟨hc, own, ⟨hown, -⟩, rfl⟩
    exact hown.concat_made hc

theorem accounts_composed (hstore : r.store.IsHonest holds) (d : CallDescriptor) (geo : Geo) :
    Logs Ledger.entries (Ledger.IsSound r holds) F (composed r d geo) fun found own =>
      F own ∧ ∀ dataset calls, found = some (dataset, calls) →
        ∀ c ∈ calls, c.IsMadeBy r ∧ c.IsWhole := by
  rw [composed]
  split
  · exact .pure fun own hown => ⟨hown, by simp⟩
  · refine (accounts_lookup hstore _).bind fun found => ?_
    cases found with
    | none => exact .pure fun own hown => ⟨hown.1, by simp⟩
    | some included =>
      refine (accounts_lookup hstore _).bind fun found => ?_
      cases found with
      | none => exact .pure fun own hown => ⟨hown.1.1, by simp⟩
      | some excluded =>
        refine .pure ?_
        rintro own ⟨⟨hown, hincluded⟩, hexcluded⟩
        refine ⟨hown, fun dataset calls hfound c hc => ?_⟩
        obtain ⟨-, rfl⟩ := Prod.mk.inj (Option.some.inj hfound)
        rcases List.mem_append.mp hc with hc | hc
        · exact hincluded _ _ rfl c hc
        · exact hexcluded _ _ rfl c hc

theorem accounts_resolveCategory (hstore : r.store.IsHonest holds) (d : CallDescriptor)
    (geo : Geo) :
    Logs Ledger.entries (Ledger.IsSound r holds) (· = []) (resolveCategory r d geo) fun sourced =>
      Accounts r [sourced] := by
  rw [resolveCategory]
  refine (accounts_composed hstore d geo).bind fun found => ?_
  cases found with
  | some found =>
    refine .pure ?_
    rintro _ ⟨rfl, hcalls⟩
    exact Accounts.nil.concat (.ofCached found.1 (hcalls _ _ rfl))
  | none =>
    refine (logs_call (Ledger.isOfFiles_isSound r holds) _).bind fun c => .pure ?_
    rintro _ ⟨hc, _, ⟨rfl, -⟩, rfl⟩
    exact Accounts.nil.concat_made hc

/-- The answers to some phrases account for all calls that were made for them. -/
theorem accounts_phrases (hstore : r.store.IsHonest holds) (geo : Geo) (phrases : List String) :
    Logs Ledger.entries (Ledger.IsSound r holds) (Accounts r parts)
      (phrases.mapM (fetchPhrase r geo)) fun more => Accounts r (parts ++ more) := by
  have hphrase : ∀ x ∈ phrases, ∀ more : List Sourced,
      Logs Ledger.entries (Ledger.IsSound r holds) (Accounts r (parts ++ more))
        (fetchPhrase r geo x) fun sourced => Accounts r (parts ++ (more ++ [sourced])) := by
    intro x _ more
    have hfetch : Logs Ledger.entries (Ledger.IsSound r holds) (Accounts r (parts ++ more))
        (fetchPhrase r geo x) fun sourced => Accounts r (parts ++ more ++ [sourced]) :=
      accounts_fetchPhrase hstore geo x
    simpa only [List.append_assoc] using hfetch
  simpa only [List.append_nil, List.nil_append] using
    Logs.mapM (I := fun more => Accounts r (parts ++ more)) hphrase []

theorem accounts_resolveText (hstore : r.store.IsHonest holds) (d : CallDescriptor) (geo : Geo) :
    Logs Ledger.entries (Ledger.IsSound r holds) (· = []) (resolveText r d geo) fun sourced =>
      Accounts r [sourced] := by
  have hstart : ∀ own : List Entry, own = [] → Accounts r [] own := fun _ hown => hown ▸ .nil
  rw [resolveText]
  split
  · refine .pure fun own hown => (hstart own hown).concat ?_
    simp [Sourced.IsTrue]
  · refine ((accounts_phrases hstore _ d.included).weaken hstart fun _ _ => id).bind
      fun included => ?_
    refine (accounts_phrases hstore _ d.excluded).bind fun excluded => .pure fun own hown => ?_
    exact hown.combine _ _

/-- The answer to a call accounts for all calls that were made for it. -/
theorem accounts_resolve (hstore : r.store.IsHonest holds) (d : CallDescriptor) (geo : Geo) :
    Logs Ledger.entries (Ledger.IsSound r holds) (· = []) (resolve r d geo) fun sourced =>
      Accounts r [sourced] := by
  rw [resolve]
  refine (accounts_lookup hstore _).bind fun found => ?_
  cases found with
  | some found =>
    refine .pure ?_
    rintro _ ⟨rfl, hcalls⟩
    exact Accounts.nil.concat (.ofCached found.1 (hcalls _ _ rfl))
  | none =>
    have hkept : ∀ sourced, Logs Ledger.entries (Ledger.IsSound r holds) (Accounts r [sourced])
        (do keepWhole r (.ofDescriptor d geo) sourced; return sourced) fun sourced =>
          Accounts r [sourced] :=
      accounts_kept hstore ⟨d.kind, geo, d.included, d.excluded, rfl⟩ []
    cases d.kind with
    | category =>
      exact ((accounts_resolveCategory hstore d geo).weaken (fun _ h => h.1) fun _ _ => id).bind
        hkept
    | text =>
      exact ((accounts_resolveText hstore d geo).weaken (fun _ h => h.1) fun _ _ => id).bind hkept

end Traced

end PlaceSearch
