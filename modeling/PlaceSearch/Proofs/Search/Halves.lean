import PlaceSearch.Proofs.NormalForm.Limits
import PlaceSearch.Proofs.Search.Plan

/-!
# Planning what compiles

A query that compiles is planned by its halves, and each half is compiled again.  Nothing is wrong
with a half: it reads what is left of the expression for the terms of one kind, and has no terms
but those of the query.  Still a half may expand to more clauses than the query, whose clauses may
contradict themselves in the other half; then, and only then, planning fails.
-/

namespace PlaceSearch

/-! ## What is left of an expression that compiles -/

/-- What is left of an expression for one kind has no more terms than the expression. -/
theorem Expr.card_leaves_project_le {e e' : Expr} {kind : TermKind}
    (h : e.project kind = some e') : e'.leaves.toFinset.card ≤ e.leaves.toFinset.card := by
  refine Finset.card_le_card fun t ht => ?_
  rw [List.mem_toFinset, ← mem_terms] at ht ⊢
  exact ((mem_terms_project e).mp ⟨e', h, ht⟩).2

theorem card_leaves_le_of_compileExpr {limits : Limits} {e : Expr} {cs : List Clause}
    (h : compileExpr limits e = .ok cs) :
    e.leaves.toFinset.card ≤ min limits.maxTerms 64 := by
  rw [compileExpr_eq] at h
  split at h
  · cases h
  · omega

/-- What is left of an expression that compiles has clauses, or too many of them. -/
theorem capped_compileExpr_project {limits : Limits} {e e' : Expr} {cs : List Clause}
    (h : compileExpr limits e = .ok cs) {kind : TermKind} (hproject : e.project kind = some e') :
    Dnf.Capped limits.maxClauses (compileExpr limits e') :=
  capped_compileExpr
    ((Expr.card_leaves_project_le hproject).trans (card_leaves_le_of_compileExpr h))

theorem exists_parse_of_compile {limits : Limits} {query : String} {cs : List Clause}
    (h : compile limits query = .ok cs) :
    ∃ e, parse query = .ok e ∧ compileExpr limits e = .ok cs := by
  rw [compile] at h
  split at h
  · cases h
  · next e hparse => exact ⟨e, hparse, h⟩

/-- Whether terms of a kind are searched for. -/
def SearchType.asks (type : SearchType) : TermKind → Bool
  | .category => type.hasCategories
  | .phrase => type.hasPhrases

namespace Searcher

variable {σ : Type} (s : Searcher σ)

/-! ## One kind after the other -/

/-- The calls for clauses over terms of one kind. -/
def callsFor : TermKind → List Clause → List CallDescriptor
  | .category => (optimize · (some s.popularity))
  | .phrase => keywordCalls

/-- The calls for the terms of one kind in an expression, none if they are not asked for. -/
def planKind (e : Expr) (type : SearchType) (kind : TermKind) :
    Except Error (List CallDescriptor) :=
  if type.asks kind then s.planPart (s.callsFor kind) (e.project kind) else .ok []

variable {s}

/-- The calls for an expression are those for its categories and then those for its phrases. -/
theorem planExpr_eq (e : Expr) (type : SearchType) :
    s.planExpr e type = (do
      let _ ← compileExpr s.limits e
      let first ← s.planKind e type .category
      let second ← s.planKind e type .phrase
      return first ++ second) := by
  cases type <;> rfl

/-- The terms of one kind are refused exactly if they are asked for and what is left of the
expression for them is refused. -/
theorem planKind_eq_error_iff {e : Expr} {type : SearchType} {kind : TermKind} {err : Error} :
    s.planKind e type kind = .error err ↔
      type.asks kind = true ∧
        ∃ e', e.project kind = some e' ∧ compileExpr s.limits e' = .error err := by
  rw [planKind]
  split
  · next hasks =>
    cases hproject : e.project kind with
    | none => simp [planPart]
    | some e' => cases hcompile : compileExpr s.limits e' <;>
        simp [planPart, hcompile, hasks, Except.map]
  · next hasks => simp [hasks]

/-- The calls for the terms of one kind search for terms of that kind in the expression. -/
theorem of_mem_planKind {e : Expr} {type : SearchType} {kind : TermKind}
    {calls : List CallDescriptor} (hplan : s.planKind e type kind = .ok calls)
    {d : CallDescriptor} (hd : d ∈ calls) :
    type.asks kind = true ∧ (∀ t, d.mentions t = true → ⟨kind, t⟩ ∈ e.terms) ∧
      match kind with
      | .category => d.kind = .category
      | .phrase => d.kind = .text ∧ d.included.Nodup := by
  rw [planKind] at hplan
  split at hplan
  · next hasks =>
    cases kind with
    | category =>
      obtain ⟨hkind, hterms⟩ := of_mem_planPart_categories hplan hd
      exact ⟨hasks, hterms, hkind⟩
    | phrase =>
      obtain ⟨hkind, hnodup, hterms⟩ := of_mem_planPart_phrases hplan hd
      exact ⟨hasks, hterms, hkind, hnodup⟩
  · cases hplan
    cases hd

/-! ## Planning a query -/

variable {query : String} {type : SearchType} {calls : List CallDescriptor}

/-- Every planned call is one for the categories or one for the phrases of the query. -/
theorem exists_planKind_of_mem_planCalls {e : Expr} (hparse : parse query = .ok e)
    (hplan : s.planCalls query type = .ok calls) {d : CallDescriptor} (hd : d ∈ calls) :
    ∃ kind part, s.planKind e type kind = .ok part ∧ d ∈ part := by
  rw [planCalls_eq_planExpr hparse, planExpr_eq] at hplan
  obtain ⟨-, -, hplan⟩ := bind_eq_ok_iff.mp hplan
  obtain ⟨first, hfirst, hplan⟩ := bind_eq_ok_iff.mp hplan
  obtain ⟨second, hsecond, hplan⟩ := bind_eq_ok_iff.mp hplan
  obtain rfl := Except.ok.inj hplan
  rcases List.mem_append.mp hd with hd | hd
  · exact ⟨.category, first, hfirst, hd⟩
  · exact ⟨.phrase, second, hsecond, hd⟩

/-- A planned call is a search by category for categories of the query or a search by text for its
phrases, each included phrase named once, and of a kind that is asked for. -/
theorem of_mem_planCalls {e : Expr} (hparse : parse query = .ok e)
    (hplan : s.planCalls query type = .ok calls) {d : CallDescriptor} (hd : d ∈ calls) :
    (d.kind = .category → type.hasCategories = true ∧
        ∀ t, d.mentions t = true → .category t ∈ e.terms) ∧
      (d.kind = .text → type.hasPhrases = true ∧ d.included.Nodup ∧
        ∀ t, d.mentions t = true → .phrase t ∈ e.terms) := by
  obtain ⟨kind, part, hpart, hmem⟩ := exists_planKind_of_mem_planCalls hparse hplan hd
  obtain ⟨hasks, hterms, hkind⟩ := of_mem_planKind hpart hmem
  cases kind with
  | category => exact ⟨fun _ => ⟨hasks, hterms⟩, fun htext => by simp [hkind] at htext⟩
  | phrase =>
    exact ⟨fun hcategory => by simp [hkind.1] at hcategory, fun _ => ⟨hasks, hkind.2, hterms⟩⟩

theorem capped_planKind {e : Expr} {cs : List Clause} (hcompile : compileExpr s.limits e = .ok cs)
    (type : SearchType) (kind : TermKind) :
    Dnf.Capped s.limits.maxClauses (s.planKind e type kind) := by
  cases hplan : s.planKind e type kind with
  | ok part => exact .inl ⟨part, rfl⟩
  | error err =>
    obtain ⟨-, e', hproject, herr⟩ := planKind_eq_error_iff.mp hplan
    rcases capped_compileExpr_project hcompile hproject with ⟨cs', hok⟩ | hcomplex
    · cases herr.symm.trans hok
    · exact .inr (congrArg _ (Except.error.inj (herr.symm.trans hcomplex)))

/-- A query that compiles is planned, unless one of its halves that are asked for has too many
clauses; then it is refused for that. -/
theorem planCalls_of_compileExpr {e : Expr} {cs : List Clause} (hparse : parse query = .ok e)
    (hcompile : compileExpr s.limits e = .ok cs) (type : SearchType) :
    ((∃ calls, s.planCalls query type = .ok calls) ∧
        ∀ kind, ∃ part, s.planKind e type kind = .ok part) ∨
      (s.planCalls query type = .error (.tooComplex s.limits.maxClauses) ∧
        ∃ kind, s.planKind e type kind = .error (.tooComplex s.limits.maxClauses)) := by
  rw [planCalls_eq_planExpr hparse, planExpr_eq, hcompile, ok_bind]
  rcases capped_planKind hcompile type .category with ⟨first, hfirst⟩ | hfirst
  · rcases capped_planKind hcompile type .phrase with ⟨second, hsecond⟩ | hsecond
    · refine .inl ⟨⟨first ++ second, by rw [hfirst, ok_bind, hsecond]; rfl⟩, fun kind => ?_⟩
      cases kind with
      | category => exact ⟨first, hfirst⟩
      | phrase => exact ⟨second, hsecond⟩
    · exact .inr ⟨by rw [hfirst, ok_bind, hsecond]; rfl, _, hsecond⟩
  · exact .inr ⟨by rw [hfirst]; rfl, _, hfirst⟩

/-- Whatever the limits and the type of search, a query that compiles is planned or refused for too
many clauses.  It is refused exactly if what is left of it for the terms of a kind that is searched
for has too many of them.  What is planned are searches by category for categories of the query,
none if categories are not searched for, and searches by text for its phrases, none if phrases are
not searched for. -/
theorem capped_planCalls {cs : List Clause} (h : compile s.limits query = .ok cs)
    (type : SearchType) :
    Dnf.Capped s.limits.maxClauses (s.planCalls query type) ∧
      ∃ e, parse query = .ok e ∧
        (s.planCalls query type = .error (.tooComplex s.limits.maxClauses) ↔
          ∃ kind e', type.asks kind = true ∧ e.project kind = some e' ∧
            compileExpr s.limits e' = .error (.tooComplex s.limits.maxClauses)) ∧
        ∀ calls, s.planCalls query type = .ok calls → ∀ d ∈ calls,
          (d.kind = .category → type.hasCategories = true ∧
            ∀ t, d.mentions t = true → .category t ∈ e.terms) ∧
          (d.kind = .text → type.hasPhrases = true ∧
            ∀ t, d.mentions t = true → .phrase t ∈ e.terms) := by
  obtain ⟨e, hparse, hcompile⟩ := exists_parse_of_compile h
  have hplan := planCalls_of_compileExpr hparse hcompile type
  refine ⟨hplan.imp And.left And.left, e, hparse, ⟨fun hcomplex => ?_, ?_⟩,
    fun calls hcalls d hd => ?_⟩
  · rcases hplan with ⟨⟨calls, hok⟩, -⟩ | ⟨-, kind, hkind⟩
    · cases hok.symm.trans hcomplex
    · obtain ⟨hasks, e', hproject, hcomplex⟩ := planKind_eq_error_iff.mp hkind
      exact ⟨kind, e', hasks, hproject, hcomplex⟩
  · rintro ⟨kind, e', hasks, hproject, hcomplex⟩
    have hkind := planKind_eq_error_iff.mpr ⟨hasks, e', hproject, hcomplex⟩
    rcases hplan with ⟨-, hparts⟩ | ⟨hrefused, -⟩
    · obtain ⟨part, hok⟩ := hparts kind
      cases hok.symm.trans hkind
    · exact hrefused
  · obtain ⟨hcategory, htext⟩ := of_mem_planCalls hparse hcalls hd
    exact ⟨hcategory, fun hkind => ⟨(htext hkind).1, (htext hkind).2.2⟩⟩

/-- `@p@ & ~@p@ & (a | b)` has no clause, but two are left of it for the categories. -/
theorem capped_planCalls_of_contradiction :
    let s : Searcher (Table Dataset) :=
      { transport := fun _ _ => .lost "", policy := {}, store := .inMemory,
        limits := { maxClauses := 1 } }
    let query := "@p@ and not @p@ and (a or b)"
    let mixed := "cafe and @live music@"
    compile s.limits query = .ok [] ∧ s.planCalls query .phrases = .ok [] ∧
      (∃ kind e', SearchType.both.asks kind = true ∧
        compileExpr s.limits e' = .error (.tooComplex 1)) ∧
      compile s.limits mixed = .ok [⟨[.category "cafe", .phrase "live music"], []⟩] ∧
      s.planCalls mixed .both =
        .ok [⟨["cafe"], [], .category⟩, ⟨["live music"], [], .text⟩] ∧
      ∃ e, parse mixed = .ok e ∧ .phrase "live music" ∈ e.terms := by
  intro s query mixed
  have hquery : compile s.limits "@p@ and not @p@ and (a or b)" = .ok [] := rfl
  have hphrases : s.planCalls "@p@ and not @p@ and (a or b)" .phrases = .ok [] := rfl
  have hboth : s.planCalls "@p@ and not @p@ and (a or b)" .both = .error (.tooComplex 1) := rfl
  have hmixed : compile s.limits "cafe and @live music@" =
      .ok [⟨[.category "cafe", .phrase "live music"], []⟩] := rfl
  have hcalls : s.planCalls "cafe and @live music@" .both =
      .ok [⟨["cafe"], [], .category⟩, ⟨["live music"], [], .text⟩] := by decide +kernel
  obtain ⟨-, _, -, hrefused, -⟩ := capped_planCalls hquery .both
  obtain ⟨kind, e', hasks, -, hcomplex⟩ := hrefused.mp hboth
  obtain ⟨-, e, hparse, -, hplanned⟩ := capped_planCalls hmixed .both
  have htext := (hplanned _ hcalls ⟨["live music"], [], .text⟩ (by decide)).2 rfl
  exact ⟨hquery, hphrases, ⟨kind, e', hasks, hcomplex⟩, hmixed, hcalls, e, hparse,
    htext.2 "live music" rfl⟩

end Searcher

end PlaceSearch
