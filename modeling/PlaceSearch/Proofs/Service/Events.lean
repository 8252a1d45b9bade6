import PlaceSearch.Proofs.Walk.Cover
import PlaceSearch.Proofs.Walk.Tour
import PlaceSearch.Service

/-!
# Histories of a service

A fetch of the full data of a city, a step of a background walk and the end of one that is given up
can follow each other in any order.  Each of them takes at most one step of a walk.  Settling and
cancelling background walks are such histories, so what holds after every history holds after them.
-/

namespace PlaceSearch

/-- What can happen to a service: a fetch of the full data of a city, a step of the background walk
at a place of their list, and the end of one that is given up. -/
inductive ServiceEvent where
  | fetch (request : SearchRequest) (country city : String)
  | advance (place : Nat)
  | drop (place : Nat)

/-- Whether an event is no fetch, or one that walks the plan of a name. -/
def ServiceEvent.IsFor (name : String) : ServiceEvent → Prop
  | .fetch q country city => planName q.query country city = name
  | _ => True

/-- A background walk after a step; it ends with the plan, or with an error. -/
def Load.after (l : Load) : Except Error WalkStep → Option Load
  | .ok step => if step.exhausted then none else some { l with token := step.token }
  | .error _ => none

theorem Load.exists_of_mem_after {l l' : Load} {result : Except Error WalkStep}
    (h : l' ∈ (l.after result).toList) :
    ∃ step, result = .ok step ∧ l' = { l with token := step.token } := by
  cases result with
  | error => simp [after] at h
  | ok step =>
    rw [after] at h
    split at h
    · simp at h
    · exact ⟨step, rfl, by simpa using h⟩

/-- A step of a walk: over the plan of a name, with a search, from a token on, in a world. -/
structure StepTaken (σ π ρ : Type) where
  plan : String
  search : CircleSearch (Session σ)
  token : ResumeToken
  world : WalkWorld (Session σ) π ρ

namespace Service

variable {σ π ρ : Type} (s : Service σ π ρ)

/-- The state after a step of the background walk at a place of the list, if there is one. -/
def advance (place : Nat) (state : ServiceState σ π ρ) : ServiceState σ π ρ :=
  match state.loads[place]? with
  | none => state
  | some l =>
    let (result, world) :=
      (s.walker.step (s.circleSearch l.query l.type) l.plan l.token).run state.world
    { state with
      world
      loads := state.loads.take place ++ (l.after result).toList ++ state.loads.drop (place + 1) }

/-- An event, and the text with which a fetch tells its client to go on. -/
def handle : ServiceEvent → StateM (ServiceState σ π ρ) (Option String)
  | .fetch q country city => do
    return (← s.fetchFull q country city).toOption.bind (·.nextPage)
  | .advance place => fun state => (none, s.advance place state)
  | .drop place => fun state => (none, { state with loads := state.loads.eraseIdx place })

/-- The state after some events. -/
def after (state : ServiceState σ π ρ) (events : List ServiceEvent) : ServiceState σ π ρ :=
  events.foldl (fun state e => ((s.handle e).run state).2) state

/-- What is read off each event of a history and the state it happens in, put together. -/
def along {α : Type} (read : ServiceState σ π ρ → ServiceEvent → List α)
    (state : ServiceState σ π ρ) : List ServiceEvent → List α
  | [] => []
  | e :: events => read state e ++ along read ((s.handle e).run state).2 events

/-- The texts with which clients were told to go on. -/
def told (state : ServiceState σ π ρ) (events : List ServiceEvent) : List String :=
  s.along (fun state e => ((s.handle e).run state).1.toList) state events

/-- The step of a walk that an event takes, if any. -/
def stepOf (state : ServiceState σ π ρ) : ServiceEvent → Option (StepTaken σ π ρ)
  | .fetch q country city =>
    let name := planName q.query country city
    match ResumeToken.decode q.page, (s.walker.ensurePlan name q.circle).run state.world with
    | .ok token, (.ok _, world) =>
      some ⟨name, s.circleSearch q.query q.type, token,
        { world with readings := world.readings + 1 }⟩
    | _, _ => none
  | .advance place => (state.loads[place]?).map fun l =>
    ⟨l.plan, s.circleSearch l.query l.type, l.token, state.world⟩
  | .drop _ => none

/-- The rows of which an event reads a page. -/
def rowsOf (state : ServiceState σ π ρ) (e : ServiceEvent) : List Nat :=
  match s.stepOf state e with
  | none => []
  | some t => (s.walker.visits t.search t.plan t.token t.world).map (·.row)

/-- The rows that were searched. -/
def searched (state : ServiceState σ π ρ) (events : List ServiceEvent) : List Nat :=
  s.along s.rowsOf state events

variable {s} {state : ServiceState σ π ρ} {events : List ServiceEvent} {e : ServiceEvent}

theorem after_append (before later : List ServiceEvent) :
    s.after state (before ++ later) = s.after (s.after state before) later :=
  List.foldl_append

theorem after_concat :
    s.after state (events ++ [e]) = ((s.handle e).run (s.after state events)).2 :=
  after_append events [e]

theorem along_concat {α : Type} (read : ServiceState σ π ρ → ServiceEvent → List α)
    (events : List ServiceEvent) (e : ServiceEvent) :
    s.along read state (events ++ [e]) =
      s.along read state events ++ read (s.after state events) e := by
  induction events generalizing state with
  | nil => simp [along, after]
  | cons e' events ih => rw [List.cons_append, along, along, ih, List.append_assoc]; rfl

/-! ## Settling and cancelling -/

theorem advance_eq {place : Nat} {l : Load} {result : Except Error WalkStep}
    {world : WalkWorld (Session σ) π ρ} (hload : state.loads[place]? = some l)
    (hstep : (s.walker.step (s.circleSearch l.query l.type) l.plan l.token).run state.world =
      (result, world)) :
    s.advance place state = { state with
      world := world
      loads := state.loads.take place ++ (l.after result).toList ++
        state.loads.drop (place + 1) } := by
  simp only [advance, hload, hstep]

/-- A walk to the end of its plan is a history: steps of the first background walk, which is given
up if it has not ended by then.  The induction is on the steps. -/
theorem exists_events_walkFrom (fuel : Nat) (l : Load) (loads : List Load)
    (steps apiCalls features : Nat) (state : ServiceState σ π ρ)
    (hloads : state.loads = l :: loads) :
    ∃ events, s.after state events = { state with
      world := ((s.walker.walkFrom (s.circleSearch l.query l.type) l.plan l.token steps apiCalls
        features fuel).run state.world).2
      loads := loads } := by
  induction fuel generalizing l steps apiCalls features state with
  | zero =>
    refine ⟨[.drop 0], ?_⟩
    change { state with loads := state.loads.eraseIdx 0 } = { state with loads := loads }
    rw [hloads]
    rfl
  | succ fuel ih =>
    cases hstep :
        (s.walker.step (s.circleSearch l.query l.type) l.plan l.token).run state.world with
    | mk result world =>
      have hadvance : s.after state [.advance 0] =
          { state with world := world, loads := (l.after result).toList ++ loads } := by
        have hload : state.loads[0]? = some l := by
          rw [hloads]
          rfl
        have h := advance_eq hload hstep
        rw [hloads] at h
        exact h
      rw [Walker.run_walkFrom_succ, hstep]
      cases result with
      | error e => exact ⟨[.advance 0], hadvance⟩
      | ok step =>
        rw [Load.after] at hadvance
        simp only [Walker.goOn]
        split
        · rename_i hexhausted
          rw [if_pos hexhausted] at hadvance
          exact ⟨[.advance 0], hadvance⟩
        · rename_i hexhausted
          rw [if_neg hexhausted] at hadvance
          obtain ⟨events, hevents⟩ := ih { l with token := step.token } (steps + 1)
            (apiCalls + step.apiCalls) (features + step.dataset.size)
            (s.after state [.advance 0]) (by rw [hadvance]; rfl)
          refine ⟨.advance 0 :: events, ?_⟩
          rw [← List.singleton_append, after_append, hevents, hadvance]

theorem run_forM_walkLoad (fuel : Nat) (loads : List Load) (state : ServiceState σ π ρ) :
    (loads.forM (s.walkLoad fuel)).run state = ((), { state with
      world := loads.foldl (fun world l => ((s.walker.walkRemaining (s.circleSearch l.query l.type)
        l.plan l.token fuel).run world).2) state.world }) := by
  induction loads generalizing state with
  | nil => rfl
  | cons l loads ih =>
    have hwalk : (s.walkLoad fuel l).run state = ((), { state with
        world := ((s.walker.walkRemaining (s.circleSearch l.query l.type) l.plan l.token
          fuel).run state.world).2 }) := rfl
    change (s.walkLoad fuel l >>= fun _ => loads.forM (s.walkLoad fuel)).run state = _
    rw [Walker.run_bind_eq hwalk, ih]
    rfl

/-- Settling all background walks is a history. -/
theorem exists_events_settle (fuel : Nat) (state : ServiceState σ π ρ) :
    ∃ events, s.after state events = ((s.settle fuel).run state).2 := by
  have hwalks : ∀ (loads : List Load) (state : ServiceState σ π ρ), state.loads = loads →
      ∃ events, s.after state events = { state with
        world := loads.foldl (fun world l => ((s.walker.walkRemaining
          (s.circleSearch l.query l.type) l.plan l.token fuel).run world).2) state.world
        loads := [] } := by
    intro loads
    induction loads with
    | nil =>
      intro state hloads
      refine ⟨[], ?_⟩
      change state = { state with loads := [] }
      rw [← hloads]
    | cons l loads ih =>
      intro state hloads
      obtain ⟨walk, hwalk⟩ := exists_events_walkFrom (s := s) fuel l loads 0 0 0 state hloads
      obtain ⟨events, hevents⟩ := ih (s.after state walk) (by rw [hwalk])
      refine ⟨walk ++ events, ?_⟩
      rw [after_append, hevents, hwalk]
      rfl
  have hget : (get : StateM (ServiceState σ π ρ) _).run state = (state, state) := rfl
  rw [settle, Walker.run_bind_eq hget, Walker.run_bind_eq (run_forM_walkLoad fuel _ state)]
  exact hwalks state.loads state rfl

/-- Cancelling a background walk is a history. -/
theorem exists_events_cancel (s : Service σ π ρ) (id : Nat) (state : ServiceState σ π ρ) :
    ∃ events, s.after state events = ((cancel id).run state).2 := by
  have hdrops : ∀ (later before : List Load) (state : ServiceState σ π ρ),
      state.loads = before ++ later →
      ∃ events, s.after state events =
        { state with loads := before ++ later.filter (·.id != id) } := by
    intro later
    induction later with
    | nil =>
      intro before state hloads
      refine ⟨[], ?_⟩
      change state = { state with loads := before ++ [] }
      rw [← hloads]
    | cons l later ih =>
      intro before state hloads
      cases hid : l.id != id with
      | true =>
        rw [List.filter_cons, if_pos hid, List.append_cons]
        exact ih (before ++ [l]) state (by rw [hloads, List.append_cons])
      | false =>
        rw [List.filter_cons, if_neg (by simp [hid])]
        have hdrop : s.after state [.drop before.length] =
            { state with loads := before ++ later } := by
          change { state with loads := state.loads.eraseIdx before.length } =
            { state with loads := before ++ later }
          rw [hloads, List.eraseIdx_append_of_length_le (Nat.le_refl _), Nat.sub_self,
            List.eraseIdx_cons_zero]
        obtain ⟨events, hevents⟩ := ih before (s.after state [.drop before.length]) (by rw [hdrop])
        refine ⟨.drop before.length :: events, ?_⟩
        rw [← List.singleton_append, after_append, hevents, hdrop]
  exact hdrops state.loads [] state rfl

/-! ## The step that an event takes -/

theorem run_inWorld {α : Type} (act : StateM (WalkWorld (Session σ) π ρ) α)
    {x : α} {world : WalkWorld (Session σ) π ρ} (h : act.run state.world = (x, world)) :
    (inWorld act).run state = (x, { state with world := world }) := by
  change ((act.run state.world).1, { state with world := (act.run state.world).2 }) = _
  rw [h]

section Fetch

variable {q : SearchRequest} {country city : String} {token : ResumeToken} {plan : Plan}
  {world last : WalkWorld (Session σ) π ρ}

theorem run_fetchFull_of_decode_error {err : Error} (h : ResumeToken.decode q.page = .error err) :
    (s.fetchFull q country city).run state = (.error err, state) := by
  rw [fetchFull, h]
  rfl

theorem run_fetchFull_of_ensurePlan_error {err : Error}
    (htoken : ResumeToken.decode q.page = .ok token)
    (hplan : (s.walker.ensurePlan (planName q.query country city) q.circle).run state.world =
      (.error err, world)) :
    (s.fetchFull q country city).run state = (.error err, { state with world := world }) := by
  rw [fetchFull, htoken]
  simp only
  rw [Walker.run_bind_eq (run_inWorld _ hplan)]
  rfl

/-- A fetch takes a step of a walk; the background walk that it may start and the text that it may
tell its client go on where the step tells.  It fails only if the step does, and then leaves only
what the step left. -/
theorem exists_run_fetchFull (htoken : ResumeToken.decode q.page = .ok token)
    (hplan : (s.walker.ensurePlan (planName q.query country city) q.circle).run state.world =
      (.ok plan, world)) {result : Except Error WalkStep}
    (hstep : (s.walker.step (s.circleSearch q.query q.type) (planName q.query country city)
      token).run { world with readings := world.readings + 1 } = (result, last)) :
    ∃ fetched state', (s.fetchFull q country city).run state = (fetched, state') ∧
      state'.world = last ∧
      (∀ l ∈ state'.loads, l ∈ state.loads ∨ ∃ step, result = .ok step ∧
        l.plan = planName q.query country city ∧ l.token = step.token) ∧
      (∀ text, fetched.toOption.bind (·.nextPage) = some text → ∃ step next, result = .ok step ∧
        step.next = some next ∧ text = next.encode) ∧
      ∀ err, fetched = .error err →
        result = .error err ∧ state' = { state with world := last } := by
  have hnow : ((s.walker.now : StateM (WalkWorld (Session σ) π ρ) Time)).run world =
      (s.walker.clock world.readings, { world with readings := world.readings + 1 }) := rfl
  obtain ⟨busy, hbusy⟩ := Walker.exists_run_isActiveOrDone s.walker (planName q.query country city)
    (s.walker.clock world.readings) { world with readings := world.readings + 1 }
  rw [fetchFull, htoken]
  simp only
  rw [Walker.run_bind_eq (run_inWorld _ hplan)]
  simp only
  rw [Walker.run_bind_eq (run_inWorld _ hnow), Walker.run_bind_eq (run_inWorld _ hbusy),
    Walker.run_bind_eq (run_inWorld _ hstep)]
  cases result with
  | error err =>
    refine ⟨_, _, rfl, rfl, fun l hl => .inl hl, fun _ htold => ?_, fun err' hfail => ?_⟩
    · cases htold
    · obtain rfl := Except.error.inj hfail
      exact ⟨rfl, rfl⟩
  | ok step =>
    have htold : ∀ text, step.next.map ResumeToken.encode = some text →
        ∃ step' next, (Except.ok step : Except Error WalkStep) = .ok step' ∧
          step'.next = some next ∧ text = next.encode := by
      intro text htext
      obtain ⟨next, hnext, rfl⟩ := Option.map_eq_some_iff.mp htext
      exact ⟨step, next, rfl, hnext, rfl⟩
    simp only
    split
    · exact ⟨_, _, rfl, rfl, fun l hl => .inl hl, htold, fun _ hfail => by cases hfail⟩
    · refine ⟨_, _, rfl, rfl, fun l hl => ?_, htold, fun _ hfail => by cases hfail⟩
      rcases List.mem_append.mp hl with hl | hl
      · exact .inl hl
      · obtain rfl := List.mem_singleton.mp hl
        exact .inr ⟨step, rfl, rfl, rfl⟩

/-- A fetch whose token can be read stores a plan if there was none, however it ends. -/
theorem exists_rows_fetchFull
    (hplans : s.walker.plans.Keeps (planName q.query country city)) {n : String}
    (hnone : s.walker.plans.read (planName q.query country city) state.world.plans =
      .error (.planNotFound n))
    (htoken : ResumeToken.decode q.page = .ok token) :
    ∃ rows, s.walker.plans.read (planName q.query country city)
      ((s.fetchFull q country city).run state).2.world.plans = .ok rows := by
  obtain ⟨rows, hrows⟩ := Walker.exists_rows_ensurePlan hplans hnone q.circle
  cases hplan : (s.walker.ensurePlan (planName q.query country city) q.circle).run
      state.world with
  | mk made world =>
    rw [hplan] at hrows
    cases made with
    | error e =>
      rw [run_fetchFull_of_ensurePlan_error htoken hplan]
      exact ⟨rows, hrows⟩
    | ok plan =>
      let asked : WalkWorld (Session σ) π ρ := { world with readings := world.readings + 1 }
      have hrows' : s.walker.plans.read (planName q.query country city) asked.plans = .ok rows :=
        hrows
      have hstored := Walker.exists_rows_step hplans.isHonest hrows'
        (s.circleSearch q.query q.type) token
      cases hstep : (s.walker.step (s.circleSearch q.query q.type)
          (planName q.query country city) token).run asked with
      | mk result last =>
        obtain ⟨fetched, state', hrun, hworld, -⟩ := exists_run_fetchFull htoken hplan hstep
        rw [hstep] at hstored
        rw [hrun, hworld]
        exact hstored

end Fetch

theorem exists_of_stepOf_fetch {q : SearchRequest} {country city : String} {t : StepTaken σ π ρ}
    (h : s.stepOf state (.fetch q country city) = some t) :
    ∃ token plan world, ResumeToken.decode q.page = .ok token ∧
      (s.walker.ensurePlan (planName q.query country city) q.circle).run state.world =
        (.ok plan, world) ∧
      t = ⟨planName q.query country city, s.circleSearch q.query q.type, token,
        { world with readings := world.readings + 1 }⟩ := by
  rw [stepOf] at h
  split at h
  · rename_i token plan world htoken hplan
    exact ⟨token, plan, world, htoken, hplan, (Option.some.inj h).symm⟩
  · cases h

/-- What an event does that takes a step: it leaves the world that the step leaves, and the
background walk and the client that it lets go on do so where the step tells. -/
theorem exists_run_handle {t : StepTaken σ π ρ} (h : s.stepOf state e = some t)
    {result : Except Error WalkStep} {last : WalkWorld (Session σ) π ρ}
    (hstep : (s.walker.step t.search t.plan t.token).run t.world = (result, last)) :
    ∃ told state', (s.handle e).run state = (told, state') ∧ state'.world = last ∧
      (∀ l ∈ state'.loads, l ∈ state.loads ∨ ∃ step, result = .ok step ∧ l.plan = t.plan ∧
        l.token = step.token) ∧
      ∀ text, told = some text → ∃ step next, result = .ok step ∧ step.next = some next ∧
        text = next.encode := by
  cases e with
  | fetch q country city =>
    obtain ⟨token, plan, world, htoken, hplan, rfl⟩ := exists_of_stepOf_fetch h
    obtain ⟨fetched, state', hrun, hworld, hloads, htold, -⟩ :=
      exists_run_fetchFull htoken hplan hstep
    refine ⟨_, state', ?_, hworld, hloads, htold⟩
    rw [handle, Walker.run_bind_eq hrun]
    rfl
  | advance place =>
    obtain ⟨l, hload, rfl⟩ := Option.map_eq_some_iff.mp h
    refine ⟨none, _, congrArg (Prod.mk none) (advance_eq hload hstep), rfl, fun l' hl' => ?_, ?_⟩
    · rcases List.mem_append.mp hl' with hl' | hl'
      · rcases List.mem_append.mp hl' with hl' | hl'
        · exact .inl (List.mem_of_mem_take hl')
        · obtain ⟨step, hresult, rfl⟩ := Load.exists_of_mem_after hl'
          exact .inr ⟨step, hresult, rfl, rfl⟩
      · exact .inl (List.mem_of_mem_drop hl')
    · rintro _ ⟨⟩
  | drop => cases h

/-- What an event does that takes no step: it lets no client and no further background walk go on,
and leaves the world as it is, unless it is a fetch whose plan cannot be had. -/
theorem exists_run_handle_of_stepOf_eq_none (h : s.stepOf state e = none) :
    ∃ state', (s.handle e).run state = (none, state') ∧ (∀ l ∈ state'.loads, l ∈ state.loads) ∧
      (state'.world = state.world ∨ ∃ q country city err, e = .fetch q country city ∧
        (s.walker.ensurePlan (planName q.query country city) q.circle).run state.world =
          (.error err, state'.world)) := by
  cases e with
  | fetch q country city =>
    cases htoken : ResumeToken.decode q.page with
    | error err =>
      refine ⟨state, ?_, fun l hl => hl, .inl rfl⟩
      rw [handle, Walker.run_bind_eq (run_fetchFull_of_decode_error htoken)]
      rfl
    | ok token =>
      cases hplan : (s.walker.ensurePlan (planName q.query country city) q.circle).run
          state.world with
      | mk plan world =>
        cases plan with
        | ok plan => simp [stepOf, htoken, hplan] at h
        | error err =>
          refine ⟨{ state with world := world }, ?_, fun l hl => hl,
            .inr ⟨q, country, city, err, rfl, hplan⟩⟩
          rw [handle, Walker.run_bind_eq (run_fetchFull_of_ensurePlan_error htoken hplan)]
          rfl
  | advance place =>
    have hload : state.loads[place]? = none := Option.map_eq_none_iff.mp h
    refine ⟨state, ?_, fun l hl => hl, .inl rfl⟩
    change (none, s.advance place state) = _
    rw [advance, hload]
  | drop place => exact ⟨_, rfl, fun l hl => List.mem_of_mem_eraseIdx hl, .inl rfl⟩

end Service

end PlaceSearch
