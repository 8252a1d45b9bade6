import Mathlib.Algebra.Order.BigOperators.Group.List
import PlaceSearch.Proofs.Search.Pages

/-!
# Following the cursors of a search

A search is made without a cursor, then with the cursor of its answer, and so on until an answer
has none.  All calls of the search that include a single phrase get the cursor, also those whose
phrase it does not belong to, and only one cursor comes back.  So every cursor is sent where it
belongs, and every page is read, exactly if at most one of these phrases has further pages, and is
then the only one.
-/

namespace PlaceSearch

variable {σ : Type}

namespace Chains

/-- A phrase that has further pages and is included alone by a call is the only one that calls
include alone. -/
def Sole (k : Chains) (calls : List CallDescriptor) : Prop :=
  ∀ d ∈ calls, ∀ d' ∈ calls, ∀ w w', d.included = [w] → d'.included = [w'] → 0 < k.last w → w = w'

/-- Page `i` of every phrase that calls include alone is found at one cursor. -/
def At (k : Chains) (calls : List CallDescriptor) (page : Option String) (i : Nat) : Prop :=
  ∀ d ∈ calls, ∀ w, d.included = [w] → i ≤ k.last w ∧ page = k.page w i

variable {k : Chains} {circle : Circle} {calls : List CallDescriptor} {page : Option String}
  {i : Nat} {sent : List Request}

/-- If no cursor comes back, the last pages have been asked for. -/
theorem ServesAll.last_mem (h : k.ServesAll circle calls page none sent)
    (hat : k.At calls page i) {d : CallDescriptor} (hd : d ∈ calls) {w : String}
    (hw : d.included = [w]) : .text circle w (k.page w (k.last w)) ∈ sent := by
  obtain ⟨hi, hpage⟩ := hat d hd w hw
  have hnext := (h.of_none rfl d hd).next w hw i hi hpage
  obtain rfl : i = k.last w := Nat.le_antisymm hi (page_succ_eq_none_iff.mp hnext.symm)
  rw [← hpage]
  exact h.asked d hd w hw

/-- A cursor that comes back belongs to a phrase that a call includes alone. -/
theorem ServesAll.exists_owner {c : String} (h : k.ServesAll circle calls page (some c) sent) :
    ∃ d ∈ calls, ∃ w, d.included = [w] ∧
      ∀ i ≤ k.last w, page = k.page w i → some c = k.page w (i + 1) := by
  obtain ⟨d, hd, hserves⟩ := h.of_some c rfl
  obtain ⟨w, hw⟩ : ∃ w, d.included = [w] := by
    by_contra hnone
    exact absurd (hserves.no_next fun w hw => hnone ⟨w, hw⟩) (Option.some_ne_none c)
  exact ⟨d, hd, w, hw, hserves.next w hw⟩

/-- At a cursor that comes back all the next pages are found, if a phrase with further pages is the
only one. -/
theorem ServesAll.at_succ {c : String} (h : k.ServesAll circle calls page (some c) sent)
    (hat : k.At calls page i) (hsole : k.Sole calls) :
    ∃ d ∈ calls, ∃ w, d.included = [w] ∧ k.At calls (some c) (i + 1) := by
  obtain ⟨d, hd, w, hw, hnext⟩ := h.exists_owner
  obtain ⟨hi, hpage⟩ := hat d hd w hw
  have hc := hnext i hi hpage
  have hlt : i < k.last w := lt_last_of_page hc.symm
  refine ⟨d, hd, w, hw, fun d' hd' w' hw' => ?_⟩
  obtain rfl := hsole d hd d' hd' w w' hw hw' (Nat.zero_lt_of_lt hlt)
  exact ⟨hlt, hc⟩

/-- A log stays in order with a request that has what it needs, in both its shapes. -/
theorem admits_inOrder {F : List Request → Prop} {w : String}
    (h : ∀ sent, F sent → k.Expects sent (.text circle w page)) :
    Admits F k.InOrder (.text circle w page) := by
  rintro sent hF horder r' (rfl | rfl)
  · exact ⟨h sent hF, horder⟩
  · refine ⟨?_, horder⟩
    cases page with
    | none => trivial
    | some c => exact h sent hF

end Chains

namespace Searcher

/-- One search for the phrases of a query, at a cursor. -/
def searchAt (s : Searcher σ) (query : String) (circle : Circle) (page : Option String) :
    Process (Session σ) (Except Error Resolved) :=
  s.searchDataset query .phrases ((Geo.ofCircle circle).atPage page)

/-- The cursor of an answer; a search that fails has none. -/
def cursorOf (result : Except Error Resolved) : Option String :=
  result.toOption.bind (·.nextCursor)

/-- Following the cursors of a search from one cursor on: the search at it is the last one, if its
answer has no cursor, and otherwise the cursor of its answer is followed. -/
inductive Follows (s : Searcher σ) (query : String) (circle : Circle) :
    Option String → Session σ → Session σ → Prop where
  | last {page : Option String} {session : Session σ}
      (h : cursorOf ((s.searchAt query circle page).run session).1 = none) :
      Follows s query circle page session ((s.searchAt query circle page).run session).2
  | next {page : Option String} {cursor : String} {session after : Session σ}
      (h : cursorOf ((s.searchAt query circle page).run session).1 = some cursor)
      (hrest : Follows s query circle (some cursor)
        ((s.searchAt query circle page).run session).2 after) :
      Follows s query circle page session after

/-- Every cursor was sent with the phrase whose page before named it, and every page was read of
every phrase that is the only one included by a call. -/
structure Faithful (s : Searcher σ) (k : Chains) (query : String) (circle : Circle)
    (sent : List Request) : Prop where
  inOrder : k.InOrder sent
  complete : ∀ calls, s.planCalls query .phrases = .ok calls → ∀ d ∈ calls, ∀ w,
    d.included = [w] → ∀ i ≤ k.last w, .text circle w (k.page w i) ∈ sent

variable {s : Searcher σ} {k : Chains} {query : String} {circle : Circle} {page : Option String}
  {session after : Session σ} {calls : List CallDescriptor}

/-- Following the cursors of a search has one end. -/
theorem Follows.unique {after' : Session σ} (h : s.Follows query circle page session after)
    (h' : s.Follows query circle page session after') : after = after' := by
  induction h with
  | last hnone =>
    cases h' with
    | last => rfl
    | next hsome => rw [hnone] at hsome; cases hsome
  | next hsome _ ih =>
    cases h' with
    | last hnone => rw [hnone] at hsome; cases hsome
    | next hsome' hrest' =>
      obtain rfl := Option.some.inj (hsome.symm.trans hsome')
      exact ih hrest'

variable {holds : σ → CacheKey → Dataset → Prop} {F Log : List Request → Prop}

/-- A cursor that is not empty stays. -/
theorem filter_eq_self (h : page ≠ some "") : page.filter (!·.isEmpty) = page := by
  cases page with
  | none => rfl
  | some c => rw [Option.filter_eq_some_iff]; exact ⟨rfl, by simpa using h⟩

section

variable (hstore : s.store.IsHonest holds) (hpages : s.transport.Pages k circle)
  (hplain : ∀ e, parse query = .ok e → ∀ w, .phrase w ∈ e.terms → CacheKey.IsPlain w)
  (hplan : s.planCalls query .phrases = .ok calls)

include hstore hpages hplain hplan

/-- A search at any cursor serves the calls of the query; the empty cursor is none. -/
theorem sends_searchAt (hF : Lasting F) (hfirst : ∀ w, Admits F Log (.text circle w none))
    (hadmits : ∀ d ∈ calls, ∀ w, d.included = [w] →
      Admits F Log (.text circle w (page.filter (!·.isEmpty)))) :
    Sends (s.InStep k query circle holds Log) F (s.searchAt query circle page)
      fun result sent => ∃ answer, result = .ok answer ∧
        k.ServesAll circle calls (page.filter (!·.isEmpty)) answer.nextCursor sent :=
  sends_searchDataset hstore hpages hF hfirst (Geo.page_atPage_ne (.ofCircle circle) page) hplain
    hplan hadmits

/-- One search at any cursor forgets no request, and asks for every single phrase. -/
theorem run_searchAt (hin : s.InStep k query circle holds (fun _ => True) session)
    (page : Option String) :
    let turn := (s.searchAt query circle page).run session
    s.InStep k query circle holds (fun _ => True) turn.2 ∧ session.sent ⊆ turn.2.sent ∧
      ∃ answer, turn.1 = .ok answer ∧
        k.ServesAll circle calls (page.filter (!·.isEmpty)) answer.nextCursor turn.2.sent :=
  (sends_searchAt hstore hpages hplain hplan (lasting_const True) (fun _ _ _ _ _ _ => trivial)
    fun _ _ _ _ _ _ _ _ _ => trivial).run hin trivial

/-- Following cursors forgets no request of the first search. -/
theorem Follows.subset (h : s.Follows query circle page session after)
    (hin : s.InStep k query circle holds (fun _ => True) session) :
    ((s.searchAt query circle page).run session).2.sent ⊆ after.sent := by
  induction h with
  | last => exact List.Subset.refl _
  | @next page cursor _ _ _ _ ih =>
    have hin' := (run_searchAt hstore hpages hplain hplan hin page).1
    have hsub := (run_searchAt hstore hpages hplain hplan hin' (some cursor)).2.1
    exact List.Subset.trans hsub (ih hin')

/-- If following the cursors of a search sends them where they belong, a phrase with further pages
is the only one. -/
theorem Follows.sole (h : s.Follows query circle none session after)
    (hin : s.InStep k query circle holds (fun _ => True) session)
    (horder : k.InOrder after.sent) : k.Sole calls := by
  intro d hd d' hd' w w' hw hw' hpos
  obtain ⟨hin', -, answer, hok, hserves⟩ := run_searchAt hstore hpages hplain hplan hin none
  have hcursor : cursorOf ((s.searchAt query circle none).run session).1 = answer.nextCursor := by
    rw [hok]
    rfl
  cases h with
  | last hnone =>
    -- The first page of `w` names a cursor, so that some cursor comes back.
    have hpage := (hserves.of_none (hcursor.symm.trans hnone) d hd).next w hw 0 (Nat.zero_le _) rfl
    exact absurd (Chains.page_succ_eq_none_iff.mp hpage.symm) (Nat.not_le.mpr hpos)
  | @next _ c _ _ hsome hrest =>
    -- The cursor belongs to one phrase only, and is sent with both `w` and `w'`.
    obtain ⟨-, -, w₀, -, hnext⟩ := (hcursor.symm.trans hsome ▸ hserves).exists_owner
    have hpage : some c = k.page w₀ 1 := hnext 0 (Nat.zero_le _) rfl
    obtain ⟨-, -, _, -, hserves'⟩ := run_searchAt hstore hpages hplain hplan hin' (some c)
    rw [filter_eq_self (hpage ▸ Chains.page_ne_empty)] at hserves'
    have howner : ∀ {d}, d ∈ calls → ∀ {w}, d.included = [w] → w = w₀ := by
      intro d hd w hw
      have hsent := hrest.subset hstore hpages hplain hplan hin' (hserves'.asked d hd w hw)
      obtain ⟨i, hi, -⟩ := horder.expects hsent
      exact (k.unique hi hpage.symm).1
    rw [howner hd hw, howner hd' hw']

/-- A search at a cursor that may be sent with all single phrases keeps the log in order. -/
theorem run_searchAt_of_expects (hpage : page ≠ some "")
    (hin : s.InStep k query circle holds k.InOrder session)
    (hdue : ∀ d ∈ calls, ∀ w, d.included = [w] → k.Expects session.sent (.text circle w page)) :
    let turn := (s.searchAt query circle page).run session
    s.InStep k query circle holds k.InOrder turn.2 ∧
      ∃ answer, turn.1 = .ok answer ∧
        k.ServesAll circle calls page answer.nextCursor turn.2.sent := by
  have hlasting : Lasting fun sent =>
      ∀ d ∈ calls, ∀ w, d.included = [w] → k.Expects sent (.text circle w page) :=
    fun _ _ hsub h d hd w hw => (h d hd w hw).mono hsub
  have hself : page.filter (!·.isEmpty) = page := filter_eq_self hpage
  obtain ⟨hin', -, hanswer⟩ := (sends_searchAt hstore hpages hplain hplan hlasting
    (fun w => Chains.admits_inOrder fun _ _ => trivial)
    fun d hd w hw => Chains.admits_inOrder fun sent h => by
      rw [hself]
      exact h d hd w hw).run hin hdue
  rw [hself] at hanswer
  exact ⟨hin', hanswer⟩

/-- If a phrase with further pages is the only one, following the cursors of a search from one of
its pages ends, sends them where they belong, and reads its last page.  The induction is on the
number of pages that may follow. -/
theorem exists_follows (hsole : k.Sole calls) {n i : Nat} {page : Option String}
    {session : Session σ} (hpage : page ≠ some "")
    (hin : s.InStep k query circle holds k.InOrder session) (hat : k.At calls page i)
    (hdue : ∀ d ∈ calls, ∀ w, d.included = [w] → k.Expects session.sent (.text circle w page))
    (hn : ∀ d ∈ calls, ∀ w, d.included = [w] → k.last w ≤ i + n) :
    ∃ after, s.Follows query circle page session after ∧ k.InOrder after.sent ∧
      ∀ d ∈ calls, ∀ w, d.included = [w] → .text circle w (k.page w (k.last w)) ∈ after.sent := by
  obtain ⟨hin', answer, hok, hserves⟩ :=
    run_searchAt_of_expects hstore hpages hplain hplan hpage hin hdue
  have hcursor : cursorOf ((s.searchAt query circle page).run session).1 = answer.nextCursor := by
    rw [hok]
    rfl
  cases hnext : answer.nextCursor with
  | none =>
    rw [hnext] at hcursor hserves
    exact ⟨_, .last hcursor, hin'.2, fun d hd w hw => hserves.last_mem hat hd hw⟩
  | some c =>
    rw [hnext] at hcursor hserves
    obtain ⟨d, hd, w, hw, hat'⟩ := hserves.at_succ hat hsole
    obtain ⟨m, rfl⟩ : ∃ m, n = m + 1 := by
      have hlast := (hat' d hd w hw).1
      have hbound := hn d hd w hw
      exact ⟨n - 1, by omega⟩
    have hpage' : some c ≠ some "" := (hat' d hd w hw).2 ▸ Chains.page_ne_empty
    have hdue' : ∀ d ∈ calls, ∀ w, d.included = [w] → k.Expects
        ((s.searchAt query circle page).run session).2.sent (.text circle w (some c)) := by
      intro d hd w hw
      refine ⟨i, (hat' d hd w hw).2.symm, ?_⟩
      rw [← (hat d hd w hw).2]
      exact hserves.asked d hd w hw
    obtain ⟨after, hfollows, hafter⟩ := exists_follows hsole hpage' hin' hat' hdue'
      fun d hd w hw => Nat.succ_add_eq_add_succ i m ▸ hn d hd w hw
    exact ⟨after, .next hcursor hfollows, hafter⟩
termination_by n

end

/-- A search that is refused is the last one, and sends nothing. -/
theorem exists_follows_of_refused (hstore : s.store.IsHonest holds) {err : Error}
    (hplan : s.planCalls query .phrases = .error err) {store : σ}
    (hempty : ∀ key d, ¬holds store key d) :
    ∃ after, s.Follows query circle none { store } after ∧ after.sent = [] := by
  let start : Session σ := { store }
  let key := CacheKey.ofQuery query SearchType.phrases.name ((Geo.ofCircle circle).atPage none)
  have hmiss : (s.lookup key).run start = (none, ((s.lookup key).run start).2) :=
    Prod.ext (run_lookup_of_empty hstore hempty key) rfl
  have hrun : (s.searchAt query circle none).run start =
      (.error err, ((s.lookup key).run start).2) := run_searchDataset_of_refused hplan hmiss
  refine ⟨_, .last (by rw [hrun]; rfl), ?_⟩
  rw [hrun]
  rfl

/-- Following the cursors of a search for phrases, with nothing in the store at first, ends, sends
every cursor only with the phrase it belongs to, and reads every page of every phrase that a call
includes alone, exactly if one of these phrases that has further pages is the only one of them.

Phrases that hold a comma or a bar are left out (`hplain`): several phrases can then have the key of
a single one, whose pages are not read if theirs are in the store. -/
theorem exists_follows_faithful_iff (hstore : s.store.IsHonest holds)
    (hpages : s.transport.Pages k circle)
    (hplain : ∀ e, parse query = .ok e → ∀ w, .phrase w ∈ e.terms →
      ',' ∉ w.toList ∧ '|' ∉ w.toList)
    {store : σ} (hempty : ∀ key d, ¬holds store key d) :
    (∃ after, s.Follows query circle none { store } after ∧
        s.Faithful k query circle after.sent) ↔
      ∀ calls, s.planCalls query .phrases = .ok calls → k.Sole calls := by
  have hplain' : ∀ e, parse query = .ok e → ∀ w, .phrase w ∈ e.terms → CacheKey.IsPlain w :=
    fun e hparse w hw =>
      ⟨text_ne_empty_of_mem_terms hparse hw, (hplain e hparse w hw).1, (hplain e hparse w hw).2⟩
  constructor
  · rintro ⟨after, hfollows, hfaithful⟩ calls hplan
    exact hfollows.sole hstore hpages hplain' hplan ⟨.of_empty hempty, trivial⟩ hfaithful.inOrder
  · intro hsole
    cases hplan : s.planCalls query .phrases with
    | error err =>
      obtain ⟨after, hfollows, hsent⟩ := exists_follows_of_refused hstore hplan hempty
      refine ⟨after, hfollows, ?_, fun calls hplan' => ?_⟩
      · rw [hsent]
        trivial
      · rw [hplan] at hplan'
        cases hplan'
    | ok calls =>
      have hstart : s.InStep k query circle holds k.InOrder { store } :=
        ⟨.of_empty hempty, trivial⟩
      have hlast : ∀ d ∈ calls, ∀ w, d.included = [w] →
          k.last w ≤ 0 + (calls.map fun d => k.last (d.included.headD "")).sum := by
        intro d hd w hw
        have hmem := List.mem_map_of_mem (f := fun d => k.last (d.included.headD "")) hd
        simp only [hw, List.headD_cons] at hmem
        rw [Nat.zero_add]
        exact List.le_sum_of_mem hmem
      obtain ⟨after, hfollows, horder, hmem⟩ := exists_follows hstore hpages hplain' hplan
        (hsole calls hplan) (Option.some_ne_none "").symm hstart
        (fun _ _ _ _ => ⟨Nat.zero_le _, rfl⟩) (fun _ _ _ _ => trivial) hlast
      refine ⟨after, hfollows, horder, fun calls' hplan' d hd w hw i hi => ?_⟩
      obtain rfl := Except.ok.inj (hplan.symm.trans hplan')
      exact horder.mem_of_le le_rfl (hmem d hd w hw) hi

/-- A cursor of a phrase is sent where it belongs while the other phrases are only searched for
together, but not if another phrase is searched for alone. -/
theorem exists_follows_faithful_iff_of_two_pages :
    let k : Chains := .ofPhrase "a" (by decide : "A1" ≠ "")
    let s : Searcher (Table Dataset) :=
      { transport := .ofChains k, policy := {}, store := .inMemory }
    let circle : Circle := ⟨⟨59.33, 18.06⟩, 1500.0⟩
    let together := "@a@ OR (@b@ AND @c@)"
    let alone := "@a@ OR @b@"
    (∃ after, s.Follows together circle none { store := [] } after ∧
        s.Faithful k together circle after.sent) ∧
      ¬∃ after, s.Follows alone circle none { store := [] } after ∧
        s.Faithful k alone circle after.sent := by
  intro k s circle together alone
  have hparse : parse "@a@ OR (@b@ AND @c@)" = .ok (.or [.atom (.phrase "a"),
      .and [.atom (.phrase "b"), .atom (.phrase "c")]]) := rfl
  have hparse' : parse "@a@ OR @b@" = .ok (.or [.atom (.phrase "a"), .atom (.phrase "b")]) := rfl
  have hplan : s.planCalls "@a@ OR (@b@ AND @c@)" .phrases =
      .ok [⟨["a"], [], .text⟩, ⟨["b", "c"], [], .text⟩] := rfl
  have hplan' : s.planCalls "@a@ OR @b@" .phrases =
      .ok [⟨["a"], [], .text⟩, ⟨["b"], [], .text⟩] := rfl
  have hterms : ∀ t ∈ Expr.terms (.or [.atom (.phrase "a"),
      .and [.atom (.phrase "b"), .atom (.phrase "c")]]),
        ',' ∉ t.text.toList ∧ '|' ∉ t.text.toList := by decide
  have hterms' : ∀ t ∈ Expr.terms (.or [.atom (.phrase "a"), .atom (.phrase "b")]),
      ',' ∉ t.text.toList ∧ '|' ∉ t.text.toList := by decide
  have hplain : ∀ e, parse "@a@ OR (@b@ AND @c@)" = .ok e → ∀ w, .phrase w ∈ e.terms →
      ',' ∉ w.toList ∧ '|' ∉ w.toList := by
    intro e he w hw
    obtain rfl := Except.ok.inj (hparse.symm.trans he)
    exact hterms _ hw
  have hplain' : ∀ e, parse "@a@ OR @b@" = .ok e → ∀ w, .phrase w ∈ e.terms →
      ',' ∉ w.toList ∧ '|' ∉ w.toList := by
    intro e he w hw
    obtain rfl := Except.ok.inj (hparse'.symm.trans he)
    exact hterms' _ hw
  have hstore := DatasetStore.isHonest_inMemory
  have hpages := Transport.pages_ofChains k circle
  have hempty : ∀ (key : CacheKey) (d : Dataset),
      ¬Table.get? key.canonical ([] : Table Dataset) = some d := by simp
  refine ⟨(exists_follows_faithful_iff hstore hpages hplain hempty).mpr fun calls hcalls => ?_,
    fun h => ?_⟩
  · obtain rfl := Except.ok.inj (hplan.symm.trans hcalls)
    have hsingle : ∀ d ∈ [(⟨["a"], [], .text⟩ : CallDescriptor), ⟨["b", "c"], [], .text⟩],
        ∀ w, d.included = [w] → w = "a" := by simp
    intro d hd d' hd' w w' hw hw' _
    rw [hsingle d hd w hw, hsingle d' hd' w' hw']
  · have hsole := (exists_follows_faithful_iff hstore hpages hplain' hempty).mp h _ hplan'
    have heq := hsole _ List.mem_cons_self _ (List.mem_cons_of_mem _ List.mem_cons_self) "a" "b"
      rfl rfl (by decide)
    exact absurd heq (by decide)

end Searcher

end PlaceSearch
