import PlaceSearch.Proofs.Cache.Sends
import PlaceSearch.Proofs.Provider.Pages
import PlaceSearch.Proofs.Search.Plan

/-!
# What a search for phrases sends

A search for phrases answers with one cursor, and takes one cursor to all its calls that include a
single phrase, whichever phrase it belongs to.  So what is stored is described for any cursor: what
is stored under the key of a call for a single phrase has been asked for at the cursor of the key,
and if this is the cursor of a page of the phrase, the answer has the cursor of its next page.

What the log of requests has to be like is left open.  It has to admit the requests that are sent,
the first page of any phrase among them.
-/

namespace PlaceSearch

variable {σ : Type}

/-! ## Cursors of answers -/

namespace Chains

/-- An answer with some cursor serves a call at the cursor `page`: if the call includes a single
phrase, it was asked for there, and the cursor is that of the next page if `page` is one of its
own; otherwise there is no cursor. -/
structure Serves (k : Chains) (circle : Circle) (included : List String)
    (page cursor : Option String) (sent : List Request) : Prop where
  asked : ∀ w, included = [w] → .text circle w page ∈ sent
  next : ∀ w, included = [w] → ∀ i ≤ k.last w, page = k.page w i → cursor = k.page w (i + 1)
  no_next : (∀ w, included ≠ [w]) → cursor = none

/-- An answer with some cursor serves some calls: each single phrase was asked for, and the cursor
is one of an answer to a call, if there is any. -/
structure ServesAll (k : Chains) (circle : Circle) (calls : List CallDescriptor)
    (page cursor : Option String) (sent : List Request) : Prop where
  asked : ∀ d ∈ calls, ∀ w, d.included = [w] → .text circle w page ∈ sent
  of_some : ∀ c, cursor = some c → ∃ d ∈ calls, k.Serves circle d.included page (some c) sent
  of_none : cursor = none → ∀ d ∈ calls, k.Serves circle d.included page none sent

variable {k : Chains} {circle : Circle} {included : List String} {page cursor : Option String}
  {sent : List Request} {calls : List CallDescriptor}

theorem lasting_serves : Lasting (k.Serves circle included page cursor) :=
  fun _ _ hsub h => ⟨fun w hw => hsub (h.asked w hw), h.next, h.no_next⟩

theorem lasting_servesAll : Lasting (k.ServesAll circle calls page cursor) := by
  intro sent sent' hsub h
  refine ⟨fun d hd w hw => hsub (h.asked d hd w hw), fun c hc => ?_, fun hc d hd => ?_⟩
  · obtain ⟨d, hd, hserves⟩ := h.of_some c hc
    exact ⟨d, hd, lasting_serves hsub hserves⟩
  · exact lasting_serves hsub (h.of_none hc d hd)

/-- The first cursor of the answers to some calls serves all of them. -/
theorem servesAll_findSome? {parts : List Resolved}
    (h : List.Forall₂ (fun d part => k.Serves circle d.included page part.nextCursor sent)
      calls parts) : k.ServesAll circle calls page (parts.findSome? (·.nextCursor)) sent := by
  induction h with
  | nil => exact ⟨nofun, nofun, nofun⟩
  | @cons d part calls parts hd _ ih =>
    refine ⟨List.forall_mem_cons.mpr ⟨hd.asked, ih.asked⟩, fun c hc => ?_, fun hnone => ?_⟩
    · rw [List.findSome?_cons] at hc
      cases hcursor : part.nextCursor with
      | some c' =>
        rw [hcursor] at hc hd
        obtain rfl := Option.some.inj hc
        exact ⟨d, List.mem_cons_self, hd⟩
      | none =>
        rw [hcursor] at hc
        obtain ⟨d', hd', hserves⟩ := ih.of_some c hc
        exact ⟨d', List.mem_cons_of_mem _ hd', hserves⟩
    · rw [List.findSome?_eq_none_iff, List.forall_mem_cons] at hnone
      refine List.forall_mem_cons.mpr ⟨hnone.1 ▸ hd, ih.of_none ?_⟩
      exact List.findSome?_eq_none_iff.mpr hnone.2

end Chains

/-! ## What is stored -/

namespace Searcher

/-- What may be stored under which key while one query is searched for in one circle: under the key
of a call what serves it, and under the key of the query what serves all its calls. -/
inductive Filed (s : Searcher σ) (k : Chains) (query : String) (circle : Circle)
    (sent : List Request) : CacheKey → Dataset → Prop where
  | call {page : Option String} {included excluded : List String} {d : Dataset}
      (hpage : page ≠ some "") (hnodup : included.Nodup)
      (hplain : ∀ t, t ∈ included ∨ t ∈ excluded → CacheKey.IsPlain t)
      (hd : k.Serves circle included page d.nextCursor sent) :
      Filed s k query circle sent
        (.build SearchKind.text.name ⟨circle, page⟩ included excluded) d
  | query {page : Option String} {calls : List CallDescriptor} {d : Dataset}
      (hpage : page ≠ some "") (hplan : s.planCalls query .phrases = .ok calls)
      (hd : k.ServesAll circle calls page d.nextCursor sent) :
      Filed s k query circle sent (.ofQuery query SearchType.phrases.name ⟨circle, page⟩) d

variable {s : Searcher σ} {k : Chains} {query : String} {circle : Circle} {page : Option String}
  {sent : List Request} {included excluded : List String} {calls : List CallDescriptor}

theorem lasting_filed (key : CacheKey) (d : Dataset) :
    Lasting fun sent => s.Filed k query circle sent key d := by
  intro sent sent' hsub h
  cases h with
  | call hpage hnodup hplain hd =>
    exact .call hpage hnodup hplain (Chains.lasting_serves hsub hd)
  | query hpage hplan hd => exact .query hpage hplan (Chains.lasting_servesAll hsub hd)

/-- What is filed under the key of a call serves it. -/
theorem Filed.serves (hpage : page ≠ some "") (hnodup : included.Nodup)
    (hplain : ∀ t, t ∈ included ∨ t ∈ excluded → CacheKey.IsPlain t) {d : Dataset}
    (h : s.Filed k query circle sent
      (.build SearchKind.text.name ⟨circle, page⟩ included excluded) d) :
    k.Serves circle included page d.nextCursor sent := by
  generalize hkey : CacheKey.build SearchKind.text.name ⟨circle, page⟩ included excluded = key at h
  cases h with
  | @call page' included' excluded' _ hpage' hnodup' hplain' hd =>
    have hsame : CacheKey.SameCall ⟨included, excluded, .text⟩ ⟨included', excluded', .text⟩
        ⟨circle, page⟩ ⟨circle, page'⟩ :=
      CacheKey.sameCall_of_ofDescriptor_eq hpage hpage'
        (fun t ht => hplain t (CacheKey.mentions_eq_true_iff.mp ht))
        (fun t ht => hplain' t (CacheKey.mentions_eq_true_iff.mp ht)) hkey
    obtain rfl : page = page' := hsame.page
    have hperm : included.Perm included' :=
      (List.perm_ext_iff_of_nodup hnodup hnodup').mpr hsame.included
    have hsingle : ∀ w, included = [w] ↔ included' = [w] := by
      refine fun w => ⟨?_, ?_⟩
      · rintro rfl
        exact List.singleton_perm.mp hperm |>.symm
      · rintro rfl
        exact List.perm_singleton.mp hperm
    exact ⟨fun w hw => hd.asked w ((hsingle w).mp hw), fun w hw => hd.next w ((hsingle w).mp hw),
      fun hnone => hd.no_next fun w hw => hnone w ((hsingle w).mpr hw)⟩
  | query => exact absurd hkey CacheKey.build_ne_ofQuery

/-- What is filed under the key of the query serves all its calls. -/
theorem Filed.servesAll (hpage : page ≠ some "") (hplan : s.planCalls query .phrases = .ok calls)
    {d : Dataset}
    (h : s.Filed k query circle sent (.ofQuery query SearchType.phrases.name ⟨circle, page⟩) d) :
    k.ServesAll circle calls page d.nextCursor sent := by
  generalize hkey : CacheKey.ofQuery query SearchType.phrases.name ⟨circle, page⟩ = key at h
  cases h with
  | call => exact absurd hkey.symm CacheKey.build_ne_ofQuery
  | @query page' _ _ hpage' hplan' hd =>
    obtain rfl : page = page' :=
      CacheKey.page_eq_of_ofQuery_eq SearchType.phrases.no_bar_name hpage hpage' hkey
    obtain rfl := Except.ok.inj (hplan.symm.trans hplan')
    exact hd

/-! ## What a search sends -/

variable {holds : σ → CacheKey → Dataset → Prop} {F Log : List Request → Prop}

/-- Only what may be stored is stored, and the log of requests is as it should be. -/
def InStep (s : Searcher σ) (k : Chains) (query : String) (circle : Circle)
    (holds : σ → CacheKey → Dataset → Prop) (Log : List Request → Prop) (session : Session σ) :
    Prop :=
  Resolver.Stored holds (fun sent => s.Filed k query circle sent) session ∧ Log session.sent

/-- A call for a page of a phrase serves it. -/
theorem sends_call (hpages : s.transport.Pages k circle) (hF : Lasting F) {w : String}
    (hadmits : Admits F Log (.text circle w page)) :
    Sends (s.InStep k query circle holds Log) F (s.call (.ofPhrase ⟨circle, page⟩ w))
      fun outcome sent => outcome.dataset.nextCursor = outcome.nextCursor ∧
        k.Serves circle [w] page outcome.nextCursor sent := by
  refine (Sends.call lasting_filed hF hadmits).weaken (fun _ => id) ?_
  rintro outcome sent ⟨hsent, g, houtcome⟩
  refine ⟨houtcome.nextCursor_dataset, fun w' hw' => ?_, fun w' hw' i hi hpage => ?_,
    fun hnone => absurd rfl (hnone w)⟩
  all_goals obtain rfl := List.singleton_inj.mp hw'
  · exact hsent
  · subst hpage
    exact houtcome.nextCursor_of_pages hpages hi

/-- The answer to a phrase serves it. -/
theorem sends_fetchPhrase (hstore : s.store.IsHonest holds) (hpages : s.transport.Pages k circle)
    (hF : Lasting F) (hpage : page ≠ some "") {w : String} (hplain : CacheKey.IsPlain w)
    (hadmits : Admits F Log (.text circle w page)) :
    Sends (s.InStep k query circle holds Log) F (s.fetchPhrase ⟨circle, page⟩ w)
      fun answer sent => answer.dataset.nextCursor = answer.nextCursor ∧
        k.Serves circle [w] page answer.nextCursor sent := by
  have hplain' : ∀ t, t ∈ [w] ∨ t ∈ [] → CacheKey.IsPlain t := by
    simpa using hplain
  rw [Resolver.fetchPhrase]
  refine (Sends.lookup hstore hF _).bind fun found => ?_
  cases found with
  | some d =>
    refine .pure fun sent h => ⟨rfl, ?_⟩
    exact (h.2 d rfl).serves hpage (List.nodup_singleton w) hplain'
  | none =>
    refine ((sends_call hpages hF hadmits).weaken (fun _ h => h.1) fun _ _ => id).bind
      fun outcome => ?_
    refine (Sends.keepWhole hstore ((lasting_const _).and Chains.lasting_serves)
      fun sent h => ?_).bind fun _ => .pure fun sent h => h
    have hserves := h.2
    rw [← h.1] at hserves
    exact .call hpage (List.nodup_singleton w) hplain' hserves

/-- Reading the first pages of some phrases leaves what lasts. -/
theorem sends_firstPages (hstore : s.store.IsHonest holds) (hpages : s.transport.Pages k circle)
    (hF : Lasting F) (hfirst : ∀ w, Admits F Log (.text circle w none)) {ws : List String}
    (hplain : ∀ w ∈ ws, CacheKey.IsPlain w) {G : List Request → Prop} (hG : Lasting G) :
    Sends (s.InStep k query circle holds Log) (fun sent => F sent ∧ G sent)
      (ws.mapM (s.fetchPhrase ⟨circle, none⟩)) fun _ sent => F sent ∧ G sent := by
  have hphrase : ∀ w ∈ ws, Sends (s.InStep k query circle holds Log) F
      (s.fetchPhrase ⟨circle, none⟩ w) fun _ _ => True := fun w hw =>
    (sends_fetchPhrase hstore hpages hF (Option.some_ne_none "").symm (hplain w hw)
      (hfirst w)).weaken (fun _ => id) fun _ _ _ => trivial
  exact ((Sends.mapM hF (fun _ _ => lasting_const True) hphrase).frame (hF.and hG)).weaken
    (fun _ h => ⟨h.1, h⟩) fun _ _ h => h.2

/-- The answer put together from the answers to phrases serves the call. -/
theorem sends_resolveText (hstore : s.store.IsHonest holds) (hpages : s.transport.Pages k circle)
    (hF : Lasting F) (hfirst : ∀ w, Admits F Log (.text circle w none)) (hpage : page ≠ some "")
    {d : CallDescriptor} (hplain : ∀ t, t ∈ d.included ∨ t ∈ d.excluded → CacheKey.IsPlain t)
    (hadmits : ∀ w, d.included = [w] → Admits F Log (.text circle w page)) :
    Sends (s.InStep k query circle holds Log) F (s.resolveText d ⟨circle, page⟩)
      fun answer sent => answer.dataset.nextCursor = answer.nextCursor ∧
        k.Serves circle d.included page answer.nextCursor sent := by
  obtain ⟨included, excluded, kind⟩ := d
  have hi : ∀ t ∈ included, CacheKey.IsPlain t := fun t ht => hplain t (.inl ht)
  have he : ∀ t ∈ excluded, CacheKey.IsPlain t := fun t ht => hplain t (.inr ht)
  rcases included with _ | ⟨w, _ | ⟨w', ws⟩⟩
  · exact .pure fun sent _ => ⟨rfl, nofun, nofun, fun _ => rfl⟩
  · -- The only phrase is read at the cursor, and the answer has the cursor of its page.
    have hphrase : ∀ x ∈ [w], Sends (s.InStep k query circle holds Log) F
        (s.fetchPhrase ⟨circle, page⟩ x) fun answer sent =>
          k.Serves circle [x] page answer.nextCursor sent := by
      intro x hx
      obtain rfl := List.mem_singleton.mp hx
      exact (sends_fetchPhrase hstore hpages hF hpage (hi x hx) (hadmits x rfl)).weaken
        (fun _ => id) fun _ _ h => h.2
    have hincluded : Sends (s.InStep k query circle holds Log) F
        ([w].mapM (s.fetchPhrase ⟨circle, page⟩)) fun parts sent =>
          F sent ∧ k.Serves circle [w] page (parts.head?.bind (·.nextCursor)) sent := by
      have hparts := Sends.mapM
        (Q := fun x (part : Resolved) => k.Serves circle [x] page part.nextCursor) hF
        (fun _ _ => Chains.lasting_serves) hphrase
      refine (hparts.frame hF).weaken (fun _ h => ⟨h, h⟩) fun parts sent h => ⟨h.2, ?_⟩
      obtain ⟨part, _, hserves, -, rfl⟩ := List.forall₂_cons_left_iff.mp h.1
      exact hserves
    refine hincluded.bind fun parts => ?_
    refine (sends_firstPages hstore hpages hF hfirst he Chains.lasting_serves).bind fun _ => ?_
    exact .pure fun sent h => ⟨rfl, h.2⟩
  · -- The first pages of several phrases are put together, and the answer has no cursor.
    refine ((sends_firstPages hstore hpages hF hfirst hi (lasting_const True)).weaken
      (fun _ h => ⟨h, trivial⟩) fun _ _ => id).bind fun included => ?_
    refine (sends_firstPages hstore hpages hF hfirst he (lasting_const True)).bind fun excluded => ?_
    exact .pure fun sent _ => ⟨rfl, nofun, nofun, fun _ => rfl⟩

/-- The answer to a call serves it. -/
theorem sends_resolve (hstore : s.store.IsHonest holds) (hpages : s.transport.Pages k circle)
    (hF : Lasting F) (hfirst : ∀ w, Admits F Log (.text circle w none)) (hpage : page ≠ some "")
    {d : CallDescriptor} (hkind : d.kind = .text) (hnodup : d.included.Nodup)
    (hplain : ∀ t, t ∈ d.included ∨ t ∈ d.excluded → CacheKey.IsPlain t)
    (hadmits : ∀ w, d.included = [w] → Admits F Log (.text circle w page)) :
    Sends (s.InStep k query circle holds Log) F (s.resolve d ⟨circle, page⟩)
      fun answer sent => k.Serves circle d.included page answer.nextCursor sent := by
  rw [Resolver.resolve, CacheKey.ofDescriptor, hkind]
  refine (Sends.lookup hstore hF _).bind fun found => ?_
  cases found with
  | some dataset => exact .pure fun sent h => (h.2 dataset rfl).serves hpage hnodup hplain
  | none =>
    refine ((sends_resolveText hstore hpages hF hfirst hpage hplain hadmits).weaken
      (fun _ h => h.1) fun _ _ => id).bind fun answer => ?_
    refine (Sends.keepWhole hstore ((lasting_const _).and Chains.lasting_serves)
      fun sent h => ?_).bind fun _ => .pure fun sent h => h.2
    have hserves := h.2
    rw [← h.1] at hserves
    exact .call hpage hnodup hplain hserves

/-- A search that can be planned succeeds, and its answer serves its calls. -/
theorem sends_searchDataset (hstore : s.store.IsHonest holds)
    (hpages : s.transport.Pages k circle) (hF : Lasting F)
    (hfirst : ∀ w, Admits F Log (.text circle w none)) (hpage : page ≠ some "")
    (hplain : ∀ e, parse query = .ok e → ∀ w, .phrase w ∈ e.terms → CacheKey.IsPlain w)
    (hplan : s.planCalls query .phrases = .ok calls)
    (hadmits : ∀ d ∈ calls, ∀ w, d.included = [w] → Admits F Log (.text circle w page)) :
    Sends (s.InStep k query circle holds Log) F (s.searchDataset query .phrases ⟨circle, page⟩)
      fun result sent => ∃ answer, result = .ok answer ∧
        k.ServesAll circle calls page answer.nextCursor sent := by
  obtain ⟨e, hparse⟩ := exists_parse_of_planCalls hplan
  have hresolve : ∀ d ∈ calls, Sends (s.InStep k query circle holds Log) F
      (s.resolve d ⟨circle, page⟩) fun answer sent =>
        k.Serves circle d.included page answer.nextCursor sent := by
    intro d hd
    obtain ⟨hkind, hnodup, hphrase⟩ := of_mem_planCalls_phrases hparse hplan hd
    have hplain' : ∀ t, t ∈ d.included ∨ t ∈ d.excluded → CacheKey.IsPlain t := fun t ht =>
      hplain e hparse t (hphrase t (CacheKey.mentions_eq_true_iff.mpr ht))
    exact sends_resolve hstore hpages hF hfirst hpage hkind hnodup hplain' (hadmits d hd)
  rw [searchDataset, hplan]
  refine (Sends.lookup hstore hF _).bind fun found => ?_
  cases found with
  | some dataset => exact .pure fun sent h => ⟨_, rfl, (h.2 dataset rfl).servesAll hpage hplan⟩
  | none =>
    have hparts : Sends (s.InStep k query circle holds Log) F
        (s.resolveAll calls ⟨circle, page⟩) fun parts sent =>
          k.ServesAll circle calls page (gather parts).nextCursor sent :=
      (Sends.together (Q := fun (d : CallDescriptor) (part : Resolved) =>
        k.Serves circle d.included page part.nextCursor) (fun _ _ => Chains.lasting_serves)
        hresolve fun _ => id).weaken (fun _ => id) fun _ _ => Chains.servesAll_findSome?
    refine (hparts.weaken (fun _ h => h.1) fun _ _ => id).bind fun parts => ?_
    refine (Sends.keepWhole hstore Chains.lasting_servesAll fun sent h =>
      .query hpage hplan h).bind fun _ => .pure fun sent h => ⟨_, rfl, h⟩

end Searcher

end PlaceSearch
