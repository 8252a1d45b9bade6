import PlaceSearch.Proofs.Search.Bills
import PlaceSearch.Proofs.Walk.Calls
import PlaceSearch.Service

/-!
# What a plan is billed for

A walk over a plan searches its circles, and the state of the plan counts the requests of all pages
that were read.  A search that fails has sent none, and the walk ends with it.  So whatever is
walked, whatever the transport and the store of datasets do, and however the calls of a search take
turns, the state counts the requests that were sent during the walks.

The counts are numbers of any size here.  A call counts at most two requests more than it makes
repetitions, so a word that has room for these has room for its count, and the count of a plan never
gets smaller, so a word that has room for the last one has room for all.
-/

namespace PlaceSearch

variable {σ π ρ : Type}

/-- What the search returns tells how many requests it sent. -/
def CircleSearch.IsBilled (search : CircleSearch (Session σ)) : Prop :=
  ∀ geo session,
    Session.Sent (billed CircleResult.apiCalls ((search geo).run session).1) session
      ((search geo).run session).2

theorem CircleSearch.IsBilled.sent {search : CircleSearch (Session σ)} (h : search.IsBilled)
    {geo : Geo} {session : Session σ} {result : Except Error CircleResult}
    (hresult : ((search geo).run session).1 = result) :
    Session.Sent (billed CircleResult.apiCalls result) session ((search geo).run session).2 :=
  hresult ▸ h geo session

theorem Service.isBilled_circleSearch (s : Service σ π ρ) (query : String) (type : SearchType) :
    (s.circleSearch query type).IsBilled := by
  intro geo session
  have hsent := (s.searcher.bills_searchDataset query type geo).run session
  have hbilled := billed_map (fun r : Resolved => (⟨r.dataset, r.nextCursor, r.apiCalls⟩ :
    CircleResult)) CircleResult.apiCalls
    ((s.searcher.searchDataset query type geo).run session).1
  rw [← hbilled] at hsent
  exact hsent

@[simp] theorem Visit.apiCallsOf_append (visits visits' : List Visit) :
    apiCallsOf (visits ++ visits') = apiCallsOf visits + apiCallsOf visits' := by
  simp [apiCallsOf]

namespace Walker

variable {w : Walker π ρ} {search : CircleSearch (Session σ)} {name : String}

/-- The requests of a step are those of the pages that it reads. -/
theorem StepRun.sent (hsearch : search.IsBilled) {plan : Plan} {token : ResumeToken}
    {apiCalls budget : Nat} {world last : WalkWorld (Session σ) π ρ} {visits : List Visit}
    {result : Except Error WalkStep}
    (h : w.StepRun search plan token apiCalls budget world visits result last) :
    Session.Sent (Visit.apiCallsOf visits) world.search last.search := by
  induction h with
  | tired => exact .of_eq rfl
  | finished => exact .of_eq rfl
  | failed _ hfail => exact hsearch.sent hfail
  | accepted hfinds => exact hsearch.sent hfinds.answer
  | passed hfinds _ _ ih =>
    rw [Visit.apiCallsOf_cons]
    exact (hsearch.sent hfinds.answer).trans ih

theorem sent_step (hsearch : search.IsBilled) (token : ResumeToken)
    (world : WalkWorld (Session σ) π ρ) :
    Session.Sent (Visit.apiCallsOf (w.visits search name token world)) world.search
      ((w.step search name token).run world).2.search := by
  cases hplan : w.planOf name world with
  | error e =>
    rw [run_step_of_error hplan, visits, hplan]
    exact .of_eq rfl
  | ok plan => exact StepRun.sent hsearch (stepRun hplan token)

/-- The requests of a call are those of the pages that it reads. -/
theorem sent_call (w : Walker π ρ) (name : String) {c : WalkCall (Session σ) π}
    (hsearch : c.search.IsBilled) (world : WalkWorld (Session σ) π ρ) :
    Session.Sent (Visit.apiCallsOf (w.callVisits name c world)) c.state
      ((w.call name c).run world).2.search := by
  let P (world : WalkWorld (Session σ) π ρ) visits (_ : Bool)
      (last : WalkWorld (Session σ) π ρ) : Prop :=
    Session.Sent (Visit.apiCallsOf visits) world.search last.search
  have happend : ∀ world world' world'' visits visits' finished, P world visits false world' →
      P world' visits' finished world'' → P world (visits ++ visits') finished world'' := by
    intro world world' world'' visits visits' finished h h'
    simp only [P, Visit.apiCallsOf_append]
    exact h.trans h'
  exact call_induction (P := P) c (fun _ _ => .of_eq rfl) happend
    (fun token world => sent_step hsearch token world) world

/-- The number of requests that are sent during a call. -/
def sentDuring (w : Walker π ρ) (name : String) (c : WalkCall (Session σ) π)
    (world : WalkWorld (Session σ) π ρ) : Nat :=
  ((w.call name c).run world).2.search.sent.length - c.state.sent.length

/-- The number of requests that are sent during some calls, one after the other. -/
def sentAlong (w : Walker π ρ) (name : String) :
    WalkWorld (Session σ) π ρ → List (WalkCall (Session σ) π) → Nat
  | _, [] => 0
  | world, c :: calls =>
    w.sentDuring name c world + sentAlong w name ((w.call name c).run world).2 calls

/-- The changes to the state of a plan count the requests that are sent during some calls. -/
theorem exists_callsOf_eq (hstore : w.progress.Keeps name) {calls : List (WalkCall (Session σ) π)}
    (hsearch : ∀ c ∈ calls, c.search.IsBilled) {world : WalkWorld (Session σ) π ρ}
    (before : List PlanChange)
    (hget : w.progress.get name world.progress = .ok (PlanChange.stored? name before)) :
    ∃ changes,
      w.progress.get name (w.afterCalls name world calls).progress =
        .ok (PlanChange.stored? name (before ++ changes)) ∧
      PlanChange.callsOf changes = w.sentAlong name world calls := by
  induction calls generalizing world before with
  | nil => exact ⟨[], by rwa [List.append_nil], rfl⟩
  | cons c calls ih =>
    obtain ⟨hc, hcalls⟩ := List.forall_mem_cons.mp hsearch
    obtain ⟨changes, htells, hprogress⟩ := exists_changes_call w name c world
    have hnext := ProgressStore.get_foldl_write hstore hget changes
    rw [← hprogress] at hnext
    obtain ⟨changes', hlast, hcount⟩ := ih hcalls _ hnext
    refine ⟨changes ++ changes', by rw [← List.append_assoc]; exact hlast, ?_⟩
    have hsent := (sent_call w name hc world).length_eq
    rw [PlanChange.callsOf_append, htells.callsOf_eq, hcount, sentAlong, sentDuring, hsent,
      Nat.add_sub_cancel_left]

end Walker

theorem PlanChange.elim_stored? (name : String) (changes : List PlanChange) :
    (stored? name changes).elim 0 (·.apiCalls) = callsOf changes := by
  rw [stored?]
  by_cases hnil : changes = []
  · rw [if_pos hnil, hnil]
    rfl
  · rw [if_neg hnil]
    exact apiCalls_stateAfter name changes

/-- The answer to a search counts the requests that were sent to get it, and for an error none was
sent, whatever the transport and the store do and whatever schedule the calls of the search follow.
If a word of 32 bits has room for two requests more than a call makes repetitions, it has room for
the count of every call.  From a plan without a state on, after any walks that search its circles
for queries, the state of the plan counts the requests that were sent during these walks, as long as
a word of 64 bits has room for their number. -/
theorem Service.apiCalls_eq_sent (s : Service σ π ρ)
    (hretries : s.searcher.policy.maxRetries + 2 < 2 ^ 32) :
    (∀ request outcome,
      (execute s.searcher.transport s.searcher.policy request).Returns outcome →
        outcome.attempts < 2 ^ 32) ∧
    (∀ query type geo session,
      let run := (s.searcher.searchDataset query type geo).run session
      ∃ more, run.2.sent = more ++ session.sent ∧
        (∀ answer, run.1 = .ok answer → answer.apiCalls = more.length) ∧
        ∀ e, run.1 = .error e → more = []) ∧
    ∀ name (world : WalkWorld (Session σ) π ρ) (calls : List (WalkCall (Session σ) π)),
      s.walker.progress.Keeps name → s.walker.progress.get name world.progress = .ok none →
      (∀ c ∈ calls, ∃ query type, c.search = s.circleSearch query type) →
      s.walker.sentAlong name world calls < 2 ^ 64 →
      (∀ c ∈ calls, ∀ world, c.state.sent <:+ ((s.walker.call name c).run world).2.search.sent) ∧
      ∃ stored,
        s.walker.progress.get name (s.walker.afterCalls name world calls).progress = .ok stored ∧
        stored.elim 0 (·.apiCalls) = s.walker.sentAlong name world calls ∧
        stored.elim 0 (·.apiCalls) < 2 ^ 64 := by
  refine ⟨fun request outcome hreturns => ?_, fun query type geo session => ?_,
    fun name world calls hstore hnone hcalls hfits => ?_⟩
  · obtain ⟨g, houtcome⟩ := exists_isOf_of_returns hreturns
    obtain ⟨n, htells⟩ := houtcome.exists_tells
    exact Nat.lt_of_le_of_lt htells.attempts_le hretries
  · intro run
    obtain ⟨more, hsent, hmore⟩ := (s.searcher.bills_searchDataset query type geo).run session
    refine ⟨more, hsent, fun answer hanswer => ?_, fun e herror => ?_⟩
    · rw [hmore]
      exact (congrArg (billed (·.apiCalls)) hanswer).symm
    · rw [← List.length_eq_zero_iff, hmore]
      exact congrArg (billed (·.apiCalls)) herror
  · have hsearch : ∀ c ∈ calls, c.search.IsBilled := by
      intro c hc
      obtain ⟨query, type, hquery⟩ := hcalls c hc
      rw [hquery]
      exact s.isBilled_circleSearch query type
    refine ⟨fun c hc world => ?_, ?_⟩
    · obtain ⟨more, hmore, -⟩ := Walker.sent_call s.walker name (hsearch c hc) world
      exact ⟨more, hmore.symm⟩
    · obtain ⟨changes, hlast, hcount⟩ := Walker.exists_callsOf_eq hstore hsearch [] hnone
      have hstored : (PlanChange.stored? name ([] ++ changes)).elim 0 (·.apiCalls) =
          s.walker.sentAlong name world calls := by
        rw [PlanChange.elim_stored?, List.nil_append, hcount]
      exact ⟨_, hlast, hstored, hstored.symm ▸ hfits⟩


/-- Two walks over a circle with a provider that only answers requests in the older shape, and one
for a query that cannot be read: the state of the plan counts two attempts and the older shape for
each of the two pages.  Two calls of one search that take turns while they pause count their six
requests. -/
theorem Service.apiCalls_eq_sent_of_older_shape :
    let rows := ["10.0_10.0_1000.0_circle=1", "end of search plan"]
    let s : Service Unit (Table (List String)) (Table PlanState) :=
      { searcher :=
          { transport := fun _ r => if r.isLegacy then .answered 200 .null else .lost "no answer"
            policy := { maxRetries := 1 }, store := .unavailable "no store" }
        walker := { plans := .inMemory, progress := .inMemory, clock := fun n => .ofSeconds n } }
    let world : WalkWorld (Session Unit) (Table (List String)) (Table PlanState) :=
      { search := { store := () }, plans := [("p", rows)], progress := [] }
    let call (kind : WalkKind) (query : String) :
        WalkCall (Session Unit) (Table (List String)) :=
      { kind, search := s.circleSearch query .categories, token := {}, state := { store := () },
        plans := [("p", rows)] }
    let calls := [call (.remaining 5) "cafe", call .step "cafe AND", call .step "bar"]
    let geo : Geo := .ofCircle ⟨⟨59.33, 18.06⟩, 1500.0⟩
    s.searcher.policy.maxRetries + 2 < 2 ^ 32 ∧
      s.walker.progress.Keeps "p" ∧ s.walker.progress.get "p" world.progress = .ok none ∧
      (∀ c ∈ calls, ∃ query type, c.search = s.circleSearch query type) ∧
      s.walker.sentAlong "p" world calls = 6 ∧
      (∃ stored,
        s.walker.progress.get "p" (s.walker.afterCalls "p" world calls).progress = .ok stored ∧
        stored.elim 0 (·.apiCalls) = s.walker.sentAlong "p" world calls) ∧
      let run := (s.searcher.searchDataset "@a@ OR @b@" .phrases geo).run { store := () }
      run.2.sent.map Request.isLegacy = [true, false, true, false, false, false] ∧
        ∀ answer, run.1 = .ok answer → answer.apiCalls = 6 := by
  intro rows s world call calls geo
  have hretries : s.searcher.policy.maxRetries + 2 < 2 ^ 32 := by decide
  have hkeeps : s.walker.progress.Keeps "p" := ProgressStore.keeps_inMemory "p"
  have hcalls : ∀ c ∈ calls, ∃ query type, c.search = s.circleSearch query type := by
    simp only [calls, List.forall_mem_cons, call]
    exact ⟨⟨_, _, rfl⟩, ⟨_, _, rfl⟩, ⟨_, _, rfl⟩, by simp⟩
  have hsix : s.walker.sentAlong "p" world calls = 6 := by decide +kernel
  obtain ⟨-, hsearch, hwalks⟩ := s.apiCalls_eq_sent hretries
  obtain ⟨-, stored, hget, hcount, -⟩ :=
    hwalks "p" world calls hkeeps rfl hcalls (by rw [hsix]; decide)
  refine ⟨hretries, hkeeps, rfl, hcalls, hsix, ⟨stored, hget, hcount⟩, ?_⟩
  have hplan : s.searcher.planCalls "@a@ OR @b@" .phrases =
      .ok [⟨["a"], [], .text⟩, ⟨["b"], [], .text⟩] := rfl
  have hlog : ((s.searcher.searchDataset "@a@ OR @b@" .phrases geo).run
      { store := () }).2.sent.map Request.isLegacy = [true, false, true, false, false, false] := by
    rw [Searcher.searchDataset, hplan]
    decide +kernel
  refine ⟨hlog, fun answer hanswer => ?_⟩
  obtain ⟨more, hsent, hbilled, -⟩ := hsearch "@a@ OR @b@" .phrases geo { store := () }
  rw [hbilled answer hanswer, ← List.append_nil more, ← hsent,
    ← List.length_map (f := Request.isLegacy), hlog]
  rfl

end PlaceSearch
