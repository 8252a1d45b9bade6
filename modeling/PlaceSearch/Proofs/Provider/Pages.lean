import PlaceSearch.Proofs.Provider.World

/-!
# Providers with pages

A provider that answers a search for a phrase in pages.  Each page but the last names the cursor
of the next one, and no cursor is named by two pages, of one phrase or of two.  A log of requests
is in order if every cursor in it was sent with the phrase whose page before named it, after that
page had been asked for.

## Main definitions

* `Chains` — the cursors between the pages of each phrase.
* `Chains.page k w i` — the cursor at which page `i` of the phrase `w` is found.
* `Transport.Pages t k circle` — the provider answers searches by text with these pages.
* `Chains.InOrder k sent` — a log is in order.
* `Chains.ofPhrase`, `Transport.ofChains k` — two pages of one phrase, and a provider with pages.
-/

namespace PlaceSearch

/-- The cursors between the pages of each phrase: all different, and none empty. -/
structure Chains where
  cursors : String → List String
  ne_empty : ∀ {w c : String}, c ∈ cursors w → c ≠ ""
  unique : ∀ {w w' c : String} {i j : Nat}, (cursors w)[i]? = some c → (cursors w')[j]? = some c →
    w = w' ∧ i = j

namespace Chains

variable (k : Chains)

/-- The number of the last page of a phrase; the first has number zero. -/
def last (w : String) : Nat :=
  (k.cursors w).length

/-- The cursor at which a page of a phrase is found; the first is found without one. -/
def page (w : String) : Nat → Option String
  | 0 => none
  | i + 1 => (k.cursors w)[i]?

/-- What a request needs to have been sent before it: with a cursor, the request for the page of
the same phrase that named the cursor. -/
def Expects (sent : List Request) : Request → Prop
  | .text circle w (some c) | .legacyText circle w (some c) =>
    ∃ i, k.page w (i + 1) = some c ∧ .text circle w (k.page w i) ∈ sent
  | _ => True

/-- Every request of a log, latest first, has been sent after what it needs. -/
def InOrder : List Request → Prop
  | [] => True
  | r :: sent => k.Expects sent r ∧ InOrder sent

variable {k} {w : String} {i j : Nat}

theorem page_ne_empty : k.page w i ≠ some "" := by
  cases i with
  | zero => nofun
  | succ i => exact fun h => k.ne_empty (List.mem_of_getElem? h) rfl

theorem page_succ_eq_none_iff : k.page w (i + 1) = none ↔ k.last w ≤ i :=
  List.getElem?_eq_none_iff

theorem lt_last_of_page {c : String} (h : k.page w (i + 1) = some c) : i < k.last w :=
  (List.getElem?_eq_some_iff.mp h).1

theorem Expects.mono {sent sent' : List Request} (hsub : sent ⊆ sent') {r : Request}
    (h : k.Expects sent r) : k.Expects sent' r := by
  unfold Expects at h ⊢
  split
  · obtain ⟨i, hpage, hmem⟩ := h
    exact ⟨i, hpage, hsub hmem⟩
  · obtain ⟨i, hpage, hmem⟩ := h
    exact ⟨i, hpage, hsub hmem⟩
  · trivial

theorem InOrder.expects {sent : List Request} (h : k.InOrder sent) {r : Request} (hr : r ∈ sent) :
    k.Expects sent r := by
  induction sent with
  | nil => cases hr
  | cons r' sent ih =>
    rcases List.mem_cons.mp hr with rfl | hr
    · exact h.1.mono (List.subset_cons_self _ _)
    · exact (ih h.2 hr).mono (List.subset_cons_self _ _)

/-- If a log is in order, all pages before one that was asked for were asked for. -/
theorem InOrder.mem_of_le {sent : List Request} (h : k.InOrder sent) {circle : Circle}
    (hi : i ≤ k.last w) (hsent : .text circle w (k.page w i) ∈ sent) (hj : j ≤ i) :
    .text circle w (k.page w j) ∈ sent := by
  induction i with
  | zero => rwa [Nat.le_zero.mp hj]
  | succ i ih =>
    rcases Nat.le_succ_iff.mp hj with hj | rfl
    · obtain ⟨c, hc⟩ : ∃ c, k.page w (i + 1) = some c := ⟨_, List.getElem?_eq_getElem hi⟩
      have hexpects := h.expects hsent
      rw [hc] at hexpects
      obtain ⟨i', hpage, hmem⟩ := hexpects
      obtain rfl := (k.unique hpage hc).2
      exact ih (Nat.le_of_succ_le hi) hmem hj
    · exact hsent

/-- A single phrase has a second page, at the given cursor. -/
def ofPhrase (phrase : String) {cursor : String} (h : cursor ≠ "") : Chains where
  cursors w := if w = phrase then [cursor] else []
  ne_empty := by
    intro w c hc
    obtain ⟨-, hc⟩ := List.mem_ite_nil_right.mp hc
    rwa [List.mem_singleton.mp hc]
  unique := by
    have hindex : ∀ {w c : String} {i : Nat},
        (if w = phrase then [cursor] else [])[i]? = some c → w = phrase ∧ i = 0 := by
      intro w c i h
      split at h
      · next hw => exact ⟨hw, by simpa using (List.getElem?_eq_some_iff.mp h).1⟩
      · cases h
    intro w w' c i j hi hj
    obtain ⟨rfl, rfl⟩ := hindex hi
    obtain ⟨rfl, rfl⟩ := hindex hj
    exact ⟨rfl, rfl⟩

end Chains

/-- Whatever was asked before, the provider answers a search by text in the circle for a page of a
phrase with status 200 and the cursor of the next page. -/
def Transport.Pages (t : Transport) (k : Chains) (circle : Circle) : Prop :=
  ∀ sent w i, i ≤ k.last w → ∃ body,
    t sent (.text circle w (k.page w i)) = .answered 200 body ∧
      Record.nextPage body = k.page w (i + 1)

/-- A call for a page of a phrase gives the cursor of the next page. -/
theorem Outcome.IsOf.nextCursor_of_pages {t : Transport} {policy : RetryPolicy} {k : Chains}
    {circle : Circle} (hpages : t.Pages k circle) {w : String} {i : Nat} (hi : i ≤ k.last w)
    {o : Outcome} {g : List Exchange} (h : o.IsOf t policy (.text circle w (k.page w i)) g) :
    o.nextCursor = k.page w (i + 1) := by
  obtain ⟨sent, body, hreply, rfl⟩ := h.eq_of_answered fun sent => by
    obtain ⟨body, hreply, -⟩ := hpages sent w i hi
    exact ⟨body, hreply⟩
  obtain ⟨body', hreply', hnext⟩ := hpages sent w i hi
  obtain ⟨-, rfl⟩ := Reply.answered.inj (hreply.symm.trans hreply')
  exact hnext

/-! ## A provider for all chains -/

/-- The answer that names a cursor and no places. -/
def emptyPage (next : Option String) : Json :=
  Json.object ([("places", .arr [])] ++ next.toList.map fun c => ("nextPageToken", .str c))

/-- A provider with pages without places: behind the cursor of a phrase comes the next one. -/
def Transport.ofChains (k : Chains) : Transport
  | _, .text _ w none => .answered 200 (emptyPage (k.page w 1))
  | _, .text _ w (some c) =>
    .answered 200 (emptyPage (k.page w ((k.cursors w).idxOf c + 2)))
  | _, _ => .lost "no such search"

theorem nextPage_emptyPage {next : Option String} (h : next ≠ some "") :
    Record.nextPage (emptyPage next) = next := by
  cases next with
  | none => rfl
  | some c =>
    have hlt : "nextPageToken" < "places" := by decide
    have hbody : emptyPage (some c) =
        .obj [("nextPageToken", .str c), ("places", .arr [])] := by
      simp only [emptyPage, Json.object, Option.toList_some, List.map_cons, List.map_nil,
        List.cons_append, List.nil_append, List.foldl_cons, List.foldl_nil, Json.putMember,
        if_pos hlt]
    have hnext : Record.nextPage (.obj [("nextPageToken", .str c), ("places", .arr [])]) =
        (some c).filter (!·.isEmpty) := rfl
    rw [hbody, hnext, Option.filter_eq_some_iff]
    exact ⟨rfl, by simpa using h⟩

theorem Transport.pages_ofChains (k : Chains) (circle : Circle) :
    (ofChains k).Pages k circle := by
  intro sent w i hi
  cases i with
  | zero => exact ⟨_, rfl, nextPage_emptyPage Chains.page_ne_empty⟩
  | succ i =>
    have hpage : k.page w (i + 1) = some (k.cursors w)[i] := List.getElem?_eq_getElem hi
    have hmem : (k.cursors w)[i] ∈ k.cursors w := List.getElem_mem hi
    have hindex : (k.cursors w).idxOf (k.cursors w)[i] = i :=
      (k.unique (List.getElem?_idxOf hmem) hpage).2
    refine ⟨emptyPage (k.page w (i + 2)), ?_, nextPage_emptyPage Chains.page_ne_empty⟩
    rw [hpage, ofChains, hindex]

end PlaceSearch
