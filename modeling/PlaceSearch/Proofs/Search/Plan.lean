import PlaceSearch.Proofs.Cache.Identity
import PlaceSearch.Proofs.Query.Standard
import PlaceSearch.Proofs.Search

/-!
# What is planned for a query

The calls for a query depend on the expression that it reads alone: each half of the query reads
what is left of the expression for the terms of one kind, and is planned by itself.

Queries that share a key read expressions that differ, if at all, in the blanks inside of their
phrases.  So the same calls are planned for their categories, but not always for their phrases.
-/

namespace PlaceSearch

theorem ok_bind {ε α β : Type} (a : α) (f : α → Except ε β) : (Except.ok a >>= f) = f a :=
  rfl

theorem bind_eq_ok_iff {ε α β : Type} {x : Except ε α} {f : α → Except ε β} {b : β} :
    x >>= f = .ok b ↔ ∃ a, x = .ok a ∧ f a = .ok b := by
  cases x with
  | error err => exact ⟨nofun, nofun⟩
  | ok a => simp [ok_bind]

/-- The included terms of a clause are distinct. -/
theorem nodup_included_of_mem_compileExpr {limits : Limits} {e : Expr} {cs : List Clause}
    (h : compileExpr limits e = .ok cs) {c : Clause} (hc : c ∈ cs) : c.included.Nodup := by
  obtain ⟨ds, -, rfl⟩ := compileExpr_eq_ok h
  obtain ⟨d, -, hd⟩ := List.mem_filterMap.mp hc
  obtain ⟨-, hd⟩ := Option.ite_none_left_eq_some.mp hd
  obtain rfl := Option.some.inj hd
  exact Sorted.nodup_ofList _

namespace Searcher

variable {σ : Type} (s : Searcher σ)

/-- The calls for what is left of an expression, none if nothing is. -/
def planPart (calls : List Clause → List CallDescriptor) :
    Option Expr → Except Error (List CallDescriptor)
  | none => .ok []
  | some e => (compileExpr s.limits e).map calls

/-- The calls for an expression.  The limits hold for the whole and for each part. -/
def planExpr (e : Expr) (type : SearchType) : Except Error (List CallDescriptor) := do
  let _ ← compileExpr s.limits e
  let first ← if type.hasCategories then
      s.planPart (optimize · (some s.popularity)) (e.project .category)
    else pure []
  let second ← if type.hasPhrases then s.planPart keywordCalls (e.project .phrase) else pure []
  return first ++ second

variable {s}

/-- A half that reads what is left of an expression is planned as such. -/
theorem planHalf_eq_planPart {calls : List Clause → List CallDescriptor} {half : String}
    {e? : Option Expr} (hempty : half = "" ↔ e? = none)
    (hparse : ∀ e, e? = some e → parse half = .ok e) :
    s.planHalf calls half = s.planPart calls e? := by
  cases e? with
  | none =>
    rw [hempty.mpr rfl]
    rfl
  | some e =>
    have hne : half ≠ "" := fun h => Option.some_ne_none e (hempty.mp h)
    rw [planHalf, if_neg (by simpa using hne), compile, hparse e rfl]
    rfl

/-- The calls for a query are those for the expression that it reads. -/
theorem planCalls_eq_planExpr {query : String} {e : Expr} (hparse : parse query = .ok e)
    (type : SearchType) : s.planCalls query type = s.planExpr e type := by
  obtain ⟨ts, hspells, hread, hblank⟩ := parse_eq_ok_iff.mp hparse
  have hhalf := Piece.half_spec hspells hread hblank
  simp only [planCalls, planExpr, compile, hparse, splitQuery_eq_halves hparse hspells, ok_bind,
    planHalf_eq_planPart (hhalf .category).1 (hhalf .category).2,
    planHalf_eq_planPart (hhalf .phrase).1 (hhalf .phrase).2]

/-- Only what can be read is planned. -/
theorem exists_parse_of_planCalls {query : String} {type : SearchType}
    {calls : List CallDescriptor} (h : s.planCalls query type = .ok calls) :
    ∃ e, parse query = .ok e := by
  rw [planCalls, compile, bind_eq_ok_iff] at h
  obtain ⟨cs, hcompile, -⟩ := h
  cases hparse : parse query with
  | ok e => exact ⟨e, rfl⟩
  | error err =>
    rw [hparse] at hcompile
    cases hcompile

theorem planPart_eq_ok_iff {f : List Clause → List CallDescriptor} {e? : Option Expr}
    {calls : List CallDescriptor} :
    s.planPart f e? = .ok calls ↔
      (e? = none ∧ calls = []) ∨
        ∃ e cs, e? = some e ∧ compileExpr s.limits e = .ok cs ∧ calls = f cs := by
  cases e? with
  | none => simp [planPart, eq_comm]
  | some e => cases hcompile : compileExpr s.limits e <;>
      simp [planPart, hcompile, Except.map, eq_comm]

/-- The calls for the categories of an expression. -/
theorem planExpr_categories_eq_ok_iff {e : Expr} {calls : List CallDescriptor} :
    s.planExpr e .categories = .ok calls ↔
      (∃ cs, compileExpr s.limits e = .ok cs) ∧
        s.planPart (optimize · (some s.popularity)) (e.project .category) = .ok calls := by
  simp [planExpr, SearchType.hasCategories, SearchType.hasPhrases, bind_eq_ok_iff, pure,
    Except.pure]

/-- The calls for the phrases of an expression. -/
theorem planExpr_phrases_eq_ok_iff {e : Expr} {calls : List CallDescriptor} :
    s.planExpr e .phrases = .ok calls ↔
      (∃ cs, compileExpr s.limits e = .ok cs) ∧
        s.planPart keywordCalls (e.project .phrase) = .ok calls := by
  simp [planExpr, SearchType.hasCategories, SearchType.hasPhrases, bind_eq_ok_iff, pure,
    Except.pure]

/-- The calls for what is left of an expression for categories are searches by category, for
categories of the expression. -/
theorem of_mem_planPart_categories {e : Expr} {calls : List CallDescriptor}
    (hplan : s.planPart (optimize · (some s.popularity)) (e.project .category) = .ok calls)
    {d : CallDescriptor} (hd : d ∈ calls) :
    d.kind = .category ∧ ∀ t, d.mentions t = true → .category t ∈ e.terms := by
  rcases planPart_eq_ok_iff.mp hplan with ⟨-, rfl⟩ | ⟨e', cs, hproject, hcompile, rfl⟩
  · cases hd
  · have hterms : ∀ c ∈ cs, ∀ t ∈ c.terms, t.kind = .category ∧ t ∈ e.terms := fun c hc t ht =>
      (Expr.mem_terms_project e).mp ⟨e', hproject, mem_terms_of_mem_compileExpr hcompile hc ht⟩
    have hclauses : ∀ c ∈ cs, c.kind = .category := fun c hc =>
      Clause.kind_of_categories fun t ht => (hterms c hc t ht).1
    obtain ⟨hkind, hmentions⟩ := of_mem_optimize hclauses hd
    refine ⟨hkind, fun t ht => ?_⟩
    obtain ⟨c, hc, u, hu, rfl⟩ := hmentions t ht
    obtain ⟨hcategory, hmem⟩ := hterms c hc u hu
    rw [Term.category, ← hcategory]
    exact hmem

/-- The calls for what is left of an expression for phrases are searches by text, for phrases of
the expression, each included phrase named once. -/
theorem of_mem_planPart_phrases {e : Expr} {calls : List CallDescriptor}
    (hplan : s.planPart keywordCalls (e.project .phrase) = .ok calls)
    {d : CallDescriptor} (hd : d ∈ calls) :
    d.kind = .text ∧ d.included.Nodup ∧
      ∀ t, d.mentions t = true → .phrase t ∈ e.terms := by
  rcases planPart_eq_ok_iff.mp hplan with ⟨-, rfl⟩ | ⟨e', cs, hproject, hcompile, rfl⟩
  · cases hd
  · obtain ⟨c, hc, rfl⟩ := List.mem_map.mp hd
    have hterms : ∀ t ∈ c.terms, t.kind = .phrase ∧ t ∈ e.terms := fun t ht =>
      (Expr.mem_terms_project e).mp ⟨e', hproject, mem_terms_of_mem_compileExpr hcompile hc ht⟩
    have hphrase : ∀ t ∈ c.terms, .phrase t.text ∈ e.terms := by
      intro t ht
      obtain ⟨hkind, hmem⟩ := hterms t ht
      rw [Term.phrase, ← hkind]
      exact hmem
    refine ⟨rfl, ?_, fun t ht => ?_⟩
    · refine (nodup_included_of_mem_compileExpr hcompile hc).map_on fun t ht u hu htext => ?_
      obtain ⟨kt, text⟩ := t
      obtain ⟨ku, text'⟩ := u
      obtain rfl : kt = .phrase := (hterms _ (List.mem_append_left _ ht)).1
      obtain rfl : ku = .phrase := (hterms _ (List.mem_append_left _ hu)).1
      exact congrArg _ htext
    · rw [CacheKey.mentions_eq_true_iff] at ht
      rcases ht with ht | ht
      all_goals
        obtain ⟨u, hu, rfl⟩ := List.mem_map.mp ht
        exact hphrase u (by simp [Clause.terms, hu])

/-- The calls for the categories of a query are searches by category, for categories of the
query. -/
theorem of_mem_planCalls_categories {query : String} {e : Expr} (hparse : parse query = .ok e)
    {calls : List CallDescriptor} (hplan : s.planCalls query .categories = .ok calls)
    {d : CallDescriptor} (hd : d ∈ calls) :
    d.kind = .category ∧ ∀ t, d.mentions t = true → CacheKey.IsPlain t := by
  rw [planCalls_eq_planExpr hparse, planExpr_categories_eq_ok_iff] at hplan
  obtain ⟨hkind, hmentions⟩ := of_mem_planPart_categories hplan.2 hd
  exact ⟨hkind, fun t ht => isPlain_of_mem_terms hparse (hmentions t ht) rfl⟩

/-- The calls for the phrases of a query are searches by text, for phrases of the query, each
included phrase named once. -/
theorem of_mem_planCalls_phrases {query : String} {e : Expr} (hparse : parse query = .ok e)
    {calls : List CallDescriptor} (hplan : s.planCalls query .phrases = .ok calls)
    {d : CallDescriptor} (hd : d ∈ calls) :
    d.kind = .text ∧ d.included.Nodup ∧
      ∀ t, d.mentions t = true → .phrase t ∈ e.terms := by
  rw [planCalls_eq_planExpr hparse, planExpr_phrases_eq_ok_iff] at hplan
  exact of_mem_planPart_phrases hplan.2 hd

/-- A query that is not stored and cannot be planned is refused, and nothing is sent. -/
theorem run_searchDataset_of_refused {query : String} {type : SearchType} {err : Error}
    (hplan : s.planCalls query type = .error err) {geo : Geo} {session session' : Session σ}
    (hmiss : (s.lookup (.ofQuery query type.name geo)).run session = (none, session')) :
    (s.searchDataset query type geo).run session = (.error err, session') := by
  rw [searchDataset, Process.run_bind, Process.run_lift, hmiss]
  simp only [hplan]
  rfl

/-- Nothing is found in an empty store. -/
theorem run_lookup_of_empty {holds : σ → CacheKey → Dataset → Prop}
    (hstore : s.store.IsHonest holds) {session : Session σ}
    (hempty : ∀ k d, ¬holds session.store k d) (key : CacheKey) :
    ((s.lookup key).run session).1 = none := by
  refine Option.eq_none_iff_forall_ne_some.mpr fun d hd => ?_
  exact hempty _ d (hstore.get (Resolver.eq_ok_of_toOption_join hd))

/-- A search that succeeds with nothing in the store was planned. -/
theorem exists_planCalls_of_empty {holds : σ → CacheKey → Dataset → Prop}
    (hstore : s.store.IsHonest holds) {query : String}
    {type : SearchType} {geo : Geo} {session : Session σ}
    (hempty : ∀ k d, ¬holds session.store k d) {answer : Resolved}
    (h : ((s.searchDataset query type geo).run session).1 = .ok answer) :
    ∃ calls, s.planCalls query type = .ok calls := by
  cases hplan : s.planCalls query type with
  | ok calls => exact ⟨calls, rfl⟩
  | error err =>
    have hmiss := run_lookup_of_empty hstore hempty (.ofQuery query type.name geo)
    rw [run_searchDataset_of_refused hplan (Prod.ext hmiss rfl)] at h
    cases h

/-! ## Queries that share a key -/

end Searcher

theorem SearchType.no_bar_name (type : SearchType) : '|' ∉ type.name.toList := by
  cases type <;> decide

/-- Blanks inside of phrases do not matter to what is kept for the categories. -/
theorem Piece.keep_category_squeezed (t : Token) :
    keep .category t.squeezed = keep .category t := by
  cases t with
  | term t => obtain ⟨kind, text⟩ := t; cases kind <;> rfl
  | _ => rfl

/-- What some words read is the same for the categories, whatever the blanks inside of
phrases. -/
theorem Parser.project_category_eq {ts ts' : List Token} {e e' : Expr} (h : read? ts = some e)
    (h' : read? ts' = some e') (hsqueezed : ts.map Token.squeezed = ts'.map Token.squeezed) :
    e.project .category = e'.project .category := by
  have hkeep : ∀ ts : List Token,
      ts.map (Piece.keep .category) = (ts.map Token.squeezed).map (Piece.keep .category) := by
    intro ts
    rw [List.map_map]
    exact List.map_congr_left fun t _ => (Piece.keep_category_squeezed t).symm
  have hpieces := readPieces?_map_keep .category h
  rw [hkeep, hsqueezed, ← hkeep, readPieces?_map_keep .category h'] at hpieces
  exact (Option.some.inj hpieces).symm

/-- Words whose phrases have single blanks are as they are. -/
theorem Parser.map_squeezed_eq_self {ts : List Token} {e : Expr} (h : read? ts = some e)
    (hterms : ∀ t ∈ e.terms, t.squeezed = t) : ts.map Token.squeezed = ts := by
  refine (List.map_congr_left fun t ht => ?_).trans (List.map_id ts)
  cases t with
  | term t => exact congrArg Token.term (hterms t ((mem_terms_of_read? h).mpr ht))
  | _ => rfl

namespace Searcher

variable {σ : Type} {s : Searcher σ}

/-- Queries with one standard form plan the same calls for their categories, if both are
planned. -/
theorem planCalls_categories_eq {query query' : String} {calls calls' : List CallDescriptor}
    (hform : Text.lower (Text.squeeze query) = Text.lower (Text.squeeze query'))
    (h : s.planCalls query .categories = .ok calls)
    (h' : s.planCalls query' .categories = .ok calls') : calls = calls' := by
  obtain ⟨e, hparse⟩ := exists_parse_of_planCalls h
  obtain ⟨e', hparse'⟩ := exists_parse_of_planCalls h'
  obtain ⟨ts, hspells, hread, -⟩ := parse_eq_ok_iff.mp hparse
  obtain ⟨ts', hspells', hread', -⟩ := parse_eq_ok_iff.mp hparse'
  have hproject :=
    Parser.project_category_eq hread hread' (hspells.map_squeezed_eq hspells' hform)
  rw [planCalls_eq_planExpr hparse, planExpr_categories_eq_ok_iff, hproject] at h
  rw [planCalls_eq_planExpr hparse', planExpr_categories_eq_ok_iff] at h'
  exact Except.ok.inj (h.2.symm.trans h'.2)

/-- Queries with one standard form read one expression, if their phrases have single blanks between
their words. -/
theorem eq_of_parse_of_squeezed {query query' : String} {e e' : Expr}
    (hform : Text.lower (Text.squeeze query) = Text.lower (Text.squeeze query'))
    (hparse : parse query = .ok e) (hparse' : parse query' = .ok e')
    (hterms : ∀ t ∈ e.terms, t.squeezed = t) (hterms' : ∀ t ∈ e'.terms, t.squeezed = t) :
    e = e' := by
  obtain ⟨ts, hspells, hread, -⟩ := parse_eq_ok_iff.mp hparse
  obtain ⟨ts', hspells', hread', -⟩ := parse_eq_ok_iff.mp hparse'
  have hwords := hspells.map_squeezed_eq hspells' hform
  rw [Parser.map_squeezed_eq_self hread hterms, Parser.map_squeezed_eq_self hread' hterms']
    at hwords
  rw [hwords, hread'] at hread
  exact (Option.some.inj hread).symm

/-- Every phrase that the query reads has single blanks between its words. -/
def HasSingleBlanks (query : String) : Prop :=
  ∀ e, parse query = .ok e → ∀ t ∈ e.terms, t.squeezed = t

/-- A query that is not read is not planned. -/
theorem toOption_planCalls_of_not_parse {query : String} (h : ¬∃ e, parse query = .ok e)
    (type : SearchType) : (s.planCalls query type).toOption = none := by
  cases hplan : s.planCalls query type with
  | ok calls => exact absurd (exists_parse_of_planCalls hplan) h
  | error err => rfl

/-- Queries that share a key plan the same calls for their categories, whenever both are planned.
If their phrases have single blanks between their words and both are read, they read one expression,
and the same calls are planned for both or both are refused for one reason.  If moreover all their
blanks are gaps and none holds the Kelvin sign, the same calls are planned for both or none for
either, whether they are read or not. -/
theorem planCalls_eq_of_ofQuery_eq {query query' : String} {type : SearchType} {geo : Geo}
    (hkey : CacheKey.ofQuery query type.name geo = CacheKey.ofQuery query' type.name geo) :
    (∀ calls calls', s.planCalls query .categories = .ok calls →
      s.planCalls query' .categories = .ok calls' → calls = calls') ∧
    (HasSingleBlanks query → HasSingleBlanks query' →
      (∀ e e', parse query = .ok e → parse query' = .ok e' →
        e = e' ∧ s.planCalls query type = s.planCalls query' type) ∧
      (Text.IsTidy query → Text.IsTidy query' →
        (s.planCalls query type).toOption = (s.planCalls query' type).toOption)) := by
  obtain ⟨-, -, hform⟩ := (CacheKey.ofQuery_eq_iff type.no_bar_name type.no_bar_name rfl).mp hkey
  refine ⟨fun calls calls' h h' => planCalls_categories_eq hform h h', fun hsingle hsingle' => ?_⟩
  have hread : ∀ e e', parse query = .ok e → parse query' = .ok e' →
      e = e' ∧ s.planCalls query type = s.planCalls query' type := by
    intro e e' hparse hparse'
    obtain rfl := eq_of_parse_of_squeezed hform hparse hparse' (hsingle e hparse)
      (hsingle' e' hparse')
    exact ⟨rfl, by rw [planCalls_eq_planExpr hparse, planCalls_eq_planExpr hparse']⟩
  refine ⟨hread, fun htidy htidy' => ?_⟩
  have hiff := exists_parse_iff_of_form_eq hform htidy htidy'
  by_cases hparse : ∃ e, parse query = .ok e
  · obtain ⟨e', hparse'⟩ := hiff.mp hparse
    obtain ⟨e, hparse⟩ := hparse
    rw [(hread e e' hparse hparse').2]
  · rw [toOption_planCalls_of_not_parse hparse,
      toOption_planCalls_of_not_parse (mt hiff.mpr hparse)]

/-- Case and blanks between words do not matter to what is planned, but blanks inside of phrases
do, and so do blanks that may not stand between words. -/
theorem planCalls_eq_of_ofQuery_eq_of_phrases :
    let s : Searcher (Table Dataset) :=
      { transport := fun _ _ => .lost "", policy := {}, store := .inMemory }
    let geo := Geo.ofCircle ⟨⟨59.33, 18.06⟩, 1500.0⟩
    let spaced := "bar  or @Live Music@"
    let plain := "bar or @live music@"
    let doubled := "@live  music@"
    let single := "@live music@"
    let odd := "bar\u00a0or @live music@"
    CacheKey.ofQuery spaced SearchType.both.name geo =
        CacheKey.ofQuery plain SearchType.both.name geo ∧
      s.planCalls spaced .both = s.planCalls plain .both ∧
      (s.planCalls spaced .both).toOption = (s.planCalls plain .both).toOption ∧
      CacheKey.ofQuery doubled SearchType.phrases.name geo =
        CacheKey.ofQuery single SearchType.phrases.name geo ∧
      s.planCalls doubled .phrases = .ok [⟨["live  music"], [], .text⟩] ∧
      s.planCalls single .phrases = .ok [⟨["live music"], [], .text⟩] ∧
      CacheKey.ofQuery odd SearchType.both.name geo =
        CacheKey.ofQuery plain SearchType.both.name geo ∧
      (s.planCalls odd .both).toOption = none ∧
      (s.planCalls plain .both).toOption.isSome = true := by
  intro s geo spaced plain doubled single odd
  have hspaced : Text.lower (Text.squeeze spaced) = Text.lower (Text.squeeze plain) := by
    decide +kernel
  have hdoubled : Text.lower (Text.squeeze doubled) = Text.lower (Text.squeeze single) := by
    decide +kernel
  have hodd : Text.lower (Text.squeeze odd) = Text.lower (Text.squeeze plain) := by
    decide +kernel
  have hparse : parse "bar  or @Live Music@" =
      .ok (.or [.atom (.category "bar"), .atom (.phrase "live music")]) := rfl
  have hparse' : parse "bar or @live music@" =
      .ok (.or [.atom (.category "bar"), .atom (.phrase "live music")]) := rfl
  have hterms : ∀ t ∈ Expr.terms (.or [.atom (.category "bar"), .atom (.phrase "live music")]),
      t.squeezed = t := by decide
  have hsingle : HasSingleBlanks spaced := fun e he => by
    obtain rfl := Except.ok.inj (hparse.symm.trans he)
    exact hterms
  have hsingle' : HasSingleBlanks plain := fun e he => by
    obtain rfl := Except.ok.inj (hparse'.symm.trans he)
    exact hterms
  have htidy : Text.IsTidy "bar  or @Live Music@" := Text.isTidy_iff.mp rfl
  have htidy' : Text.IsTidy "bar or @live music@" := Text.isTidy_iff.mp rfl
  have hkey := CacheKey.ofQuery_congr hspaced SearchType.both.name geo
  have hkey' := CacheKey.ofQuery_congr hdoubled SearchType.phrases.name geo
  have hkey'' := CacheKey.ofQuery_congr hodd SearchType.both.name geo
  obtain ⟨hread, hplan⟩ := (planCalls_eq_of_ofQuery_eq hkey).2 hsingle hsingle'
  have hcalls : s.planCalls "@live  music@" .phrases = .ok [⟨["live  music"], [], .text⟩] := rfl
  have hcalls' : s.planCalls "@live music@" .phrases = .ok [⟨["live music"], [], .text⟩] := rfl
  have hnone : (s.planCalls "bar\u00a0or @live music@" .both).toOption = none := rfl
  have hsome : (s.planCalls "bar or @live music@" .both).toOption.isSome = true := rfl
  exact ⟨hkey, (hread _ _ hparse hparse').2, hplan htidy htidy', hkey', hcalls, hcalls', hkey'',
    hnone, hsome⟩

end Searcher

end PlaceSearch
