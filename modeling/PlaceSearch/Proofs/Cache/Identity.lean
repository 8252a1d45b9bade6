import Mathlib.Data.String.Basic
import PlaceSearch.Proofs.Cache.Key
import PlaceSearch.Proofs.Decimal.Fixed
import PlaceSearch.Proofs.Sorted
import PlaceSearch.Proofs.Text.Words

/-!
# What keys tell apart

A key begins with its scope and its place.  None of these holds a bar, so both can always be
read from the key, and what is left are the terms and the page.  These can be read from it if
the terms are plain.  Texts of phrases need not be: a phrase with a comma in it has the key of
the two phrases beside the comma.
-/

namespace PlaceSearch

/-- The centre and the radius of a place as keys print them. -/
def Geo.printed (g : Geo) : String × String × String :=
  (Decimal.fixed 6 g.circle.center.lat, Decimal.fixed 6 g.circle.center.lng,
    Decimal.fixed 1 g.circle.radius)

/-- A place is never at the empty cursor. -/
theorem Geo.page_atPage_ne (g : Geo) (page : Option String) : (g.atPage page).page ≠ some "" := by
  intro h
  obtain ⟨-, hne⟩ := Option.filter_eq_some_iff.mp h
  simp at hne

/-- Cursors that are not empty can be told from their texts. -/
theorem Geo.page_eq_of_getD {g g' : Geo} (hg : g.page ≠ some "") (hg' : g'.page ≠ some "")
    (h : g.page.getD "" = g'.page.getD "") : g.page = g'.page := by
  cases hp : g.page <;> cases hp' : g'.page <;> simp_all

namespace CacheKey

theorem not_mem_fixed {c : Char} (hc : c.isAlphanum = false ∧ c ≠ '-' ∧ c ≠ '.') (places : Nat)
    (x : Float) : c ∉ (Decimal.fixed places x).toList := by
  intro h
  rcases Decimal.of_mem_fixed h with h | h | h
  · rw [hc.1] at h
    cases h
  · exact hc.2.1 h
  · exact hc.2.2 h

/-- The part of a key behind its place: the terms and the page. -/
def demand (geo : Geo) (included excluded : List String) : String :=
  termList included ++ "|-" ++ termList excluded ++ "|" ++ geo.page.getD ""

theorem build_eq (scope : String) (geo : Geo) (included excluded : List String) :
    build scope geo included excluded =
      ⟨scope ++ "|" ++ geo.printed.1 ++ "," ++ geo.printed.2.1 ++ "|" ++ geo.printed.2.2 ++ "|+"
        ++ demand geo included excluded⟩ := by
  simp [build, Geo.printed, demand, String.append_assoc]

/-- The scope and the place can be read from every key; what is left is what is asked for. -/
theorem build_eq_iff {scope scope' : String} (hs : '|' ∉ scope.toList) (hs' : '|' ∉ scope'.toList)
    {geo geo' : Geo} {included included' excluded excluded' : List String} :
    build scope geo included excluded = build scope' geo' included' excluded' ↔
      scope = scope' ∧ geo.printed = geo'.printed ∧
        demand geo included excluded = demand geo' included' excluded' := by
  have hcomma : ∀ places x, ',' ∉ (Decimal.fixed places x).toList := not_mem_fixed (by decide)
  have hbar : ∀ places x, '|' ∉ (Decimal.fixed places x).toList := not_mem_fixed (by decide)
  constructor
  · intro h
    have htext := congrArg (fun k => k.canonical.toList) h
    simp only [build_eq, String.toList_append, List.append_assoc] at htext
    obtain ⟨hscope, htext⟩ := append_cons_inj hs hs' htext
    obtain ⟨hlat, htext⟩ := append_cons_inj (hcomma _ _) (hcomma _ _) htext
    obtain ⟨hlng, htext⟩ := append_cons_inj (hbar _ _) (hbar _ _) htext
    obtain ⟨hradius, htext⟩ := append_cons_inj (hbar _ _) (hbar _ _) htext
    have hplace : geo.printed = geo'.printed :=
      Prod.ext (String.toList_inj.mp hlat)
        (Prod.ext (String.toList_inj.mp hlng) (String.toList_inj.mp hradius))
    exact ⟨String.toList_inj.mp hscope, hplace, String.toList_inj.mp (List.cons.inj htext).2⟩
  · rintro ⟨hscope, hplace, hdemand⟩
    rw [build_eq, build_eq, hscope, hplace, hdemand]

/-! ## Calls -/

theorem no_bar_kind (kind : SearchKind) : '|' ∉ kind.name.toList := by
  cases kind <;> decide

theorem kind_eq_of_name_eq {kind kind' : SearchKind} (h : kind.name = kind'.name) :
    kind = kind' := by
  revert h
  cases kind <;> cases kind' <;> decide

/-- Terms are listed alike if they are the same but for order and repetition. -/
theorem termList_congr {xs ys : List String} (h : ∀ t, t ∈ xs ↔ t ∈ ys) :
    termList xs = termList ys := by
  rw [termList, termList, Sorted.ofList_eq_iff.mpr h]

/-- Plain terms can be read from their list. -/
theorem termList_eq_iff {xs ys : List String} (hx : ∀ t ∈ xs, IsPlain t)
    (hy : ∀ t ∈ ys, IsPlain t) : termList xs = termList ys ↔ ∀ t, t ∈ xs ↔ t ∈ ys :=
  ⟨mem_iff_of_termList_eq hx hy, termList_congr⟩

/-- A single term that is itself a list of terms is listed as they are. -/
theorem termList_singleton_termList (ts : List String) : termList [termList ts] = termList ts :=
  rfl

/-- The lists of terms without bars, and the page, can be read from what is asked for. -/
theorem demand_eq_iff {geo geo' : Geo} {included included' excluded excluded' : List String}
    (hi : ∀ t ∈ included, '|' ∉ t.toList) (hi' : ∀ t ∈ included', '|' ∉ t.toList)
    (he : ∀ t ∈ excluded, '|' ∉ t.toList) (he' : ∀ t ∈ excluded', '|' ∉ t.toList) :
    demand geo included excluded = demand geo' included' excluded' ↔
      termList included = termList included' ∧ termList excluded = termList excluded' ∧
        geo.page.getD "" = geo'.page.getD "" := by
  constructor
  · intro h
    have htext := congrArg String.toList h
    simp only [demand, String.toList_append, List.append_assoc] at htext
    obtain ⟨hincluded, htext⟩ := append_cons_inj (no_bar_termList hi) (no_bar_termList hi') htext
    obtain ⟨hexcluded, hpage⟩ := append_cons_inj (no_bar_termList he) (no_bar_termList he')
      (List.cons.inj htext).2
    exact ⟨String.toList_inj.mp hincluded, String.toList_inj.mp hexcluded,
      String.toList_inj.mp hpage⟩
  · rintro ⟨hincluded, hexcluded, hpage⟩
    rw [demand, demand, hincluded, hexcluded, hpage]

instance (t : String) : Decidable (IsPlain t) :=
  decidable_of_iff (t ≠ "" ∧ ',' ∉ t.toList ∧ '|' ∉ t.toList)
    ⟨fun h => ⟨h.1, h.2.1, h.2.2⟩, fun h => ⟨h.ne_empty, h.no_comma, h.no_bar⟩⟩

/-- Two calls at two places ask for the same: they are of one kind, include and exclude the same
terms, and are aimed at one page of what is printed as one place. -/
structure SameCall (d d' : CallDescriptor) (geo geo' : Geo) : Prop where
  kind : d.kind = d'.kind
  included : ∀ t, t ∈ d.included ↔ t ∈ d'.included
  excluded : ∀ t, t ∈ d.excluded ↔ t ∈ d'.excluded
  place : geo.printed = geo'.printed
  page : geo.page = geo'.page

theorem mentions_eq_true_iff {d : CallDescriptor} {t : String} :
    d.mentions t = true ↔ t ∈ d.included ∨ t ∈ d.excluded := by
  simp [CallDescriptor.mentions]

theorem forall_mentions_iff {P : String → Prop} {d : CallDescriptor} :
    (∀ t, d.mentions t = true → P t) ↔
      (∀ t ∈ d.included, P t) ∧ ∀ t ∈ d.excluded, P t := by
  simp only [mentions_eq_true_iff, or_imp, forall_and]

/-- The kind and the place can be read from the key of every call. -/
theorem ofDescriptor_eq_iff {d d' : CallDescriptor} {geo geo' : Geo} :
    ofDescriptor d geo = ofDescriptor d' geo' ↔
      d.kind = d'.kind ∧ geo.printed = geo'.printed ∧
        demand geo d.included d.excluded = demand geo' d'.included d'.excluded := by
  rw [ofDescriptor, ofDescriptor, build_eq_iff (no_bar_kind _) (no_bar_kind _)]
  exact and_congr_left' ⟨kind_eq_of_name_eq, congrArg _⟩

/-- Calls that ask for the same share a key. -/
theorem SameCall.ofDescriptor_eq {d d' : CallDescriptor} {geo geo' : Geo}
    (h : SameCall d d' geo geo') : ofDescriptor d geo = ofDescriptor d' geo' := by
  refine ofDescriptor_eq_iff.mpr ⟨h.kind, h.place, ?_⟩
  rw [demand, demand, termList_congr h.included, termList_congr h.excluded, h.page]

/-- The page and the lists of terms, if no term holds a bar, can be read from the key of a
call. -/
theorem ofDescriptor_eq_iff_of_no_bar {d d' : CallDescriptor} {geo geo' : Geo}
    (hgeo : geo.page ≠ some "") (hgeo' : geo'.page ≠ some "")
    (hd : ∀ t, d.mentions t = true → '|' ∉ t.toList)
    (hd' : ∀ t, d'.mentions t = true → '|' ∉ t.toList) :
    ofDescriptor d geo = ofDescriptor d' geo' ↔
      d.kind = d'.kind ∧ geo.printed = geo'.printed ∧ termList d.included = termList d'.included ∧
        termList d.excluded = termList d'.excluded ∧ geo.page = geo'.page := by
  obtain ⟨hi, he⟩ := forall_mentions_iff.mp hd
  obtain ⟨hi', he'⟩ := forall_mentions_iff.mp hd'
  have hpage : geo.page.getD "" = geo'.page.getD "" ↔ geo.page = geo'.page :=
    ⟨Geo.page_eq_of_getD hgeo hgeo', congrArg (Option.getD · "")⟩
  rw [ofDescriptor_eq_iff, demand_eq_iff hi hi' he he', hpage]

/-- Plain calls share a key only if they ask for the same. -/
theorem sameCall_of_ofDescriptor_eq {d d' : CallDescriptor} {geo geo' : Geo}
    (hgeo : geo.page ≠ some "") (hgeo' : geo'.page ≠ some "")
    (hd : ∀ t, d.mentions t = true → IsPlain t) (hd' : ∀ t, d'.mentions t = true → IsPlain t)
    (h : ofDescriptor d geo = ofDescriptor d' geo') : SameCall d d' geo geo' := by
  obtain ⟨hi, he⟩ := forall_mentions_iff.mp hd
  obtain ⟨hi', he'⟩ := forall_mentions_iff.mp hd'
  obtain ⟨hkind, hplace, hincluded, hexcluded, hpage⟩ :=
    (ofDescriptor_eq_iff_of_no_bar hgeo hgeo' (fun t ht => (hd t ht).no_bar)
      fun t ht => (hd' t ht).no_bar).mp h
  exact ⟨hkind, (termList_eq_iff hi hi').mp hincluded, (termList_eq_iff he he').mp hexcluded,
    hplace, hpage⟩

/-- Calls that ask for the same share a key.  A key always tells the kind and the place; it tells
the page and the lists of terms if no term holds a bar, and the terms themselves if they are plain.
Of terms that are not it does not: a phrase that lists some terms shares the key of the terms. -/
theorem ofDescriptor_eq_iff_sameCall_of_plain (d d' : CallDescriptor) (c c' : Circle)
    (page page' : Option String) :
    let geo := (Geo.ofCircle c).atPage page
    let geo' := (Geo.ofCircle c').atPage page'
    (SameCall d d' geo geo' → ofDescriptor d geo = ofDescriptor d' geo') ∧
      (ofDescriptor d geo = ofDescriptor d' geo' →
        d.kind = d'.kind ∧ geo.printed = geo'.printed) ∧
      ((∀ t, d.mentions t = true ∨ d'.mentions t = true → '|' ∉ t.toList) →
        ofDescriptor d geo = ofDescriptor d' geo' → geo.page = geo'.page ∧
          termList d.included = termList d'.included ∧
          termList d.excluded = termList d'.excluded) ∧
      ((∀ t, d.mentions t = true ∨ d'.mentions t = true → IsPlain t) →
        (ofDescriptor d geo = ofDescriptor d' geo' ↔ SameCall d d' geo geo')) ∧
      ofDescriptor ⟨[termList d.included], d.excluded, d.kind⟩ geo = ofDescriptor d geo := by
  intro geo geo'
  have hgeo : geo.page ≠ some "" := Geo.page_atPage_ne _ _
  have hgeo' : geo'.page ≠ some "" := Geo.page_atPage_ne _ _
  refine ⟨SameCall.ofDescriptor_eq, fun h => ?_, fun hbar h => ?_, fun hplain => ⟨fun h => ?_,
    SameCall.ofDescriptor_eq⟩, ?_⟩
  · obtain ⟨hkind, hplace, -⟩ := ofDescriptor_eq_iff.mp h
    exact ⟨hkind, hplace⟩
  · obtain ⟨-, -, hincluded, hexcluded, hpage⟩ :=
      (ofDescriptor_eq_iff_of_no_bar hgeo hgeo' (fun t ht => hbar t (.inl ht))
        fun t ht => hbar t (.inr ht)).mp h
    exact ⟨hpage, hincluded, hexcluded⟩
  · exact sameCall_of_ofDescriptor_eq hgeo hgeo' (fun t ht => hplain t (.inl ht))
      (fun t ht => hplain t (.inr ht)) h
  · refine ofDescriptor_eq_iff.mpr ⟨rfl, rfl, ?_⟩
    rw [demand, demand, termList_singleton_termList]

/-- Two phrases in either order share a key, and so does the one phrase that names both with a
comma. -/
theorem ofDescriptor_eq_iff_sameCall_of_plain_pair :
    let c : Circle := ⟨⟨59.33, 18.06⟩, 1500.0⟩
    let geo := (Geo.ofCircle c).atPage none
    let pair : CallDescriptor := ⟨["a", "b"], ["x"], .text⟩
    let turned : CallDescriptor := ⟨["b", "a", "b"], ["x"], .text⟩
    let other : CallDescriptor := ⟨["a"], ["b", "x"], .text⟩
    let comma : CallDescriptor := ⟨["a,b"], ["x"], .text⟩
    ofDescriptor pair geo = ofDescriptor turned geo ∧
      ofDescriptor pair geo ≠ ofDescriptor other geo ∧
      ofDescriptor comma geo = ofDescriptor pair geo ∧ ¬SameCall comma pair geo geo := by
  intro c geo pair turned other comma
  have hplain : ∀ d ∈ [pair, turned, other], ∀ t, d.mentions t = true → IsPlain t := by
    simp only [forall_mentions_iff]
    decide
  have hpair : ∀ d ∈ [turned, other], ∀ t, pair.mentions t = true ∨ d.mentions t = true →
      IsPlain t := by
    rintro d hd t (ht | ht)
    · exact hplain pair List.mem_cons_self t ht
    · exact hplain d (List.mem_cons_of_mem _ hd) t ht
  obtain ⟨hsame, -, -, -, hcomma⟩ :=
    ofDescriptor_eq_iff_sameCall_of_plain pair turned c c none none
  obtain ⟨-, -, -, hother, -⟩ := ofDescriptor_eq_iff_sameCall_of_plain pair other c c none none
  have hincluded : ∀ t, t ∈ pair.included ↔ t ∈ turned.included := by
    grind
  refine ⟨hsame ⟨rfl, hincluded, fun t => Iff.rfl, rfl, rfl⟩, fun h => ?_, hcomma, fun h => ?_⟩
  · have hb := ((hother (hpair other (by simp))).mp h).included "b"
    revert hb
    decide
  · have ha := h.included "a"
    revert ha
    decide

/-! ## Whole queries -/

theorem termList_singleton (t : String) : termList [t] = t :=
  rfl

theorem bar_not_mem_scope {searchType : String} (h : '|' ∉ searchType.toList) :
    '|' ∉ ("query:" ++ searchType).toList := by
  rw [String.toList_append, List.mem_append, not_or]
  exact ⟨by decide, h⟩

/-- Queries that read the same in standard form share a key. -/
theorem ofQuery_congr {query query' : String}
    (h : Text.lower (Text.squeeze query) = Text.lower (Text.squeeze query'))
    (searchType : String) (geo : Geo) :
    ofQuery query searchType geo = ofQuery query' searchType geo :=
  congrArg (fun text => build ("query:" ++ searchType) geo [text] []) h

/-- Whole queries at one page share a key iff they read the same in lower case with single blanks
between their words. -/
theorem ofQuery_eq_iff {query query' searchType searchType' : String}
    (hs : '|' ∉ searchType.toList) (hs' : '|' ∉ searchType'.toList) {geo geo' : Geo}
    (hpage : geo.page = geo'.page) :
    ofQuery query searchType geo = ofQuery query' searchType' geo' ↔
      searchType = searchType' ∧ geo.printed = geo'.printed ∧
        Text.lower (Text.squeeze query) = Text.lower (Text.squeeze query') := by
  have hscope : "query:" ++ searchType = "query:" ++ searchType' ↔ searchType = searchType' :=
    String.append_right_inj "query:"
  rw [ofQuery, ofQuery, build_eq_iff (bar_not_mem_scope hs) (bar_not_mem_scope hs'), hscope,
    demand, demand, termList_singleton, termList_singleton, hpage, String.append_left_inj,
    String.append_left_inj, String.append_left_inj, String.append_left_inj]
  rfl

/-- The pages of one query have keys of their own. -/
theorem page_eq_of_ofQuery_eq {query searchType : String} (hs : '|' ∉ searchType.toList)
    {geo geo' : Geo} (hgeo : geo.page ≠ some "") (hgeo' : geo'.page ≠ some "")
    (h : ofQuery query searchType geo = ofQuery query searchType geo') : geo.page = geo'.page := by
  have hscope := bar_not_mem_scope hs
  rw [ofQuery, ofQuery, build_eq_iff hscope hscope] at h
  obtain ⟨-, -, hdemand⟩ := h
  rw [demand, demand, String.append_right_inj] at hdemand
  exact Geo.page_eq_of_getD hgeo hgeo' hdemand

end CacheKey

end PlaceSearch
