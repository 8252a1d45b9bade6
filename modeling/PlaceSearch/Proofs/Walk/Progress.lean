import PlaceSearch.Proofs.Walk.Calls

/-!
# The progress of a plan over time

Whatever the calls to a walker find, the states that they store for a plan follow one another in one
way: the percentage never falls and never exceeds 100, it is 100 in the states that have a time of
completion and in no other, and a plan that was completed once stays so.

This is a statement about all states that were ever stored, of which the store has the last one
only.  So the walks are followed with a log of the states beside the store.  It tells of the walks
without taking part in them: what is left if it is dropped is what the walks do without it.
-/

namespace PlaceSearch

/-! ## One state after the other -/

namespace PlanState

/-- The percentage is at most 100, and is 100 exactly if there is a time of completion. -/
def IsSound (s : PlanState) : Prop :=
  s.progress ≤ 100 ∧ (s.progress = 100 ↔ s.completedAt.isSome)

/-- From one state to a later one the percentage does not fall, and a completed plan stays so. -/
def Precedes (earlier later : PlanState) : Prop :=
  earlier.progress ≤ later.progress ∧ (earlier.isComplete = true → later.isComplete = true)

theorem Precedes.trans {s s' s'' : PlanState} (h : s.Precedes s') (h' : s'.Precedes s'') :
    s.Precedes s'' :=
  ⟨h.1.trans h'.1, h'.2 ∘ h.2⟩

theorem isSound_new (name : String) : IsSound { planName := name } := by
  simp [IsSound]

theorem IsSound.apply {s : PlanState} (h : s.IsSound) (c : PlanChange) : (c.apply s).IsSound := by
  cases c with
  | finish size now => exact ⟨Nat.le_refl 100, fun _ => rfl, fun _ => rfl⟩
  | page next progress apiCalls now =>
    obtain ⟨hle, hiff⟩ := h
    simp only [IsSound, PlanChange.apply, afterPage, isComplete, ← hiff, decide_eq_true_eq]
    split <;> omega

theorem IsSound.precedes_apply {s : PlanState} (h : s.IsSound) (c : PlanChange) :
    s.Precedes (c.apply s) := by
  refine ⟨?_, fun hcomplete => ?_⟩
  · cases c with
    | finish size now => exact h.1
    | page next progress apiCalls now =>
      simp only [PlanChange.apply, afterPage, isComplete, decide_eq_true_eq]
      split <;> omega
  · rw [PlanChange.isComplete_apply, hcomplete, Bool.or_true]

end PlanState

/-- The log of the states of a plan, newest first, after a change. -/
def PlanChange.logOn (name : String) (log : List PlanState) (c : PlanChange) : List PlanState :=
  c.apply (log.head?.getD { planName := name }) :: log

/-- All states of a log are sound, and each precedes the later ones. -/
def PlanState.IsOrderly (log : List PlanState) : Prop :=
  (∀ s ∈ log, s.IsSound) ∧ log.Pairwise fun later earlier => earlier.Precedes later

theorem PlanState.IsOrderly.logOn {log : List PlanState} (h : IsOrderly log) (name : String)
    (c : PlanChange) : IsOrderly (c.logOn name log) := by
  obtain ⟨hsound, hordered⟩ := h
  cases log with
  | nil => exact ⟨by simpa [PlanChange.logOn] using (isSound_new name).apply c, by
      simp [PlanChange.logOn]⟩
  | cons s log =>
    have hs : s.IsSound := hsound s (List.mem_cons_self ..)
    refine ⟨List.forall_mem_cons.mpr ⟨hs.apply c, hsound⟩, List.pairwise_cons.mpr ⟨?_, hordered⟩⟩
    -- The new state is later than the last one, and this one than all others.
    intro earlier hearlier
    rcases List.mem_cons.mp hearlier with rfl | hearlier
    · exact hs.precedes_apply c
    · exact (List.rel_of_pairwise_cons hordered hearlier).trans (hs.precedes_apply c)

theorem PlanState.IsOrderly.foldl_logOn {log : List PlanState} (h : IsOrderly log) (name : String)
    (changes : List PlanChange) : IsOrderly (changes.foldl (PlanChange.logOn name) log) := by
  induction changes generalizing log with
  | nil => exact h
  | cons c changes ih => exact ih (h.logOn name c)

/-! ## Stores with a log -/

namespace ProgressStore

variable {ρ : Type} {store : ProgressStore ρ} {name : String} {r : ρ × List PlanState}

/-- A store with the log of the states that were written to it, newest first. -/
def logged (store : ProgressStore ρ) : ProgressStore (ρ × List PlanState) where
  get := fun name r => store.get name r.1
  set := fun s r => (store.set s r.1).map (·, s :: r.2)

/-- A change does the same without a log. -/
theorem fst_update_logged (store : ProgressStore ρ) (name : String)
    (change : PlanState → PlanState) (r : ρ × List PlanState) :
    (store.logged.update name change r).1 = store.update name change r.1 := by
  have hload : store.logged.load name r = store.load name r.1 := rfl
  rw [update, update, hload]
  simp only [logged]
  cases store.set (change (store.load name r.1)) r.1 <;> rfl

/-- The log tells the state of a plan: the store has the last state of the log. -/
structure Logs (store : ProgressStore ρ) (name : String) (r : ρ × List PlanState) : Prop where
  get_eq : store.get name r.1 = .ok r.2.head?
  planName_eq : ∀ s ∈ r.2, s.planName = name

theorem Logs.load_eq (h : store.Logs name r) :
    store.load name r.1 = r.2.head?.getD { planName := name } := by
  rw [load, h.get_eq]
  cases r.2.head? <;> rfl

theorem Logs.planName_load (h : store.Logs name r) : (store.load name r.1).planName = name := by
  rw [h.load_eq]
  cases hlog : r.2.head? with
  | none => rfl
  | some s => exact h.planName_eq s (List.mem_of_mem_head? hlog)

/-- If what is written is kept, each change is logged, and the log goes on telling the state. -/
theorem Logs.write (h : store.Logs name r) (hstore : store.Keeps name) (c : PlanChange) :
    (store.logged.write name r c).2 = c.logOn name r.2 ∧
      store.Logs name (store.logged.write name r c) := by
  have hname : (c.apply (store.load name r.1)).planName = name := by
    rw [PlanChange.planName_apply, h.planName_load]
  obtain ⟨r', hset, hget⟩ := hstore _ r.1 hname
  have hwrite : store.logged.write name r c = (r', c.apply (store.load name r.1) :: r.2) := by
    have hset' : store.logged.set (c.apply (store.load name r.1)) r =
        .ok (r', c.apply (store.load name r.1) :: r.2) := by
      rw [logged]
      simp only [hset]
      rfl
    have hload : store.logged.load name r = store.load name r.1 := rfl
    rw [ProgressStore.write, update, hload, hset']
  rw [hwrite]
  exact ⟨by rw [PlanChange.logOn, h.load_eq], hget, List.forall_mem_cons.mpr ⟨hname, h.planName_eq⟩⟩

theorem Logs.foldl_write (h : store.Logs name r) (hstore : store.Keeps name)
    (changes : List PlanChange) :
    (changes.foldl (store.logged.write name) r).2 = changes.foldl (PlanChange.logOn name) r.2 ∧
      store.Logs name (changes.foldl (store.logged.write name) r) := by
  induction changes generalizing r with
  | nil => exact ⟨rfl, h⟩
  | cons c changes ih =>
    obtain ⟨hlog, hlogs⟩ := h.write hstore c
    obtain ⟨hlog', hlogs'⟩ := ih hlogs
    exact ⟨by rw [List.foldl_cons, hlog', hlog, List.foldl_cons], hlogs'⟩

end ProgressStore

/-! ## Walks with a log -/

variable {ω π ρ : Type}

/-- The world with an empty log. -/
def WalkWorld.startLog (world : WalkWorld ω π ρ) : WalkWorld ω π (ρ × List PlanState) :=
  { world with progress := (world.progress, []) }

/-- The world without its log. -/
def WalkWorld.dropLog (world : WalkWorld ω π (ρ × List PlanState)) : WalkWorld ω π ρ :=
  { world with progress := world.progress.1 }

namespace Walker

/-- The walker whose store of progress has a log. -/
def logged (w : Walker π ρ) : Walker π (ρ × List PlanState) :=
  { w with progress := w.progress.logged }

variable {w : Walker π ρ} {search : CircleSearch ω} {name : String}

/-! ### A walk does the same without a log -/

theorem dropLog_worldAfter (plan : Plan) (v : Visit) (world : WalkWorld ω π (ρ × List PlanState)) :
    (w.logged.worldAfter search plan v world).dropLog =
      w.worldAfter search plan v world.dropLog :=
  congrArg (WalkWorld.mk _ _ · _) (ProgressStore.fst_update_logged ..)

theorem dropLog_worldAtEnd (plan : Plan) (world : WalkWorld ω π (ρ × List PlanState)) :
    (w.logged.worldAtEnd plan world).dropLog = w.worldAtEnd plan world.dropLog :=
  congrArg (WalkWorld.mk _ _ · _) (ProgressStore.fst_update_logged ..)

/-- The rules by which a step runs leave no choice. -/
theorem StepRun.run_eq {plan : Plan} {token : ResumeToken} {apiCalls budget : Nat}
    {world last : WalkWorld ω π ρ} {visits : List Visit} {result : Except Error WalkStep}
    (h : w.StepRun search plan token apiCalls budget world visits result last) :
    (w.stepFrom search plan token.row token.cursor apiCalls budget).run world = (result, last) ∧
      w.visitsFrom search plan token budget world = visits := by
  induction h with
  | tired => exact ⟨rfl, rfl⟩
  | finished hend => exact ⟨run_stepFrom_finished hend, by rw [visitsFrom, hend]⟩
  | failed hcircle hfail =>
    refine ⟨run_stepFrom_failed hcircle hfail, ?_⟩
    rw [visitsFrom, hcircle]
    simp only [hfail]
  | accepted hfinds hfound =>
    refine ⟨by rw [run_stepFrom_found hfinds, if_neg (by simp [hfound])], ?_⟩
    rw [visitsFrom, hfinds.circle]
    simp only [← hfinds.geo, hfinds.answer, hfound]
    rfl
  | passed hfinds hempty _ ih =>
    refine ⟨by rw [run_stepFrom_found hfinds, if_pos hempty]; exact ih.1, ?_⟩
    rw [visitsFrom, hfinds.circle]
    simp only [← hfinds.geo, hfinds.answer, hempty, if_true]
    rw [← ih.2]

theorem StepRun.dropLog {plan : Plan} {token : ResumeToken} {apiCalls budget : Nat}
    {world last : WalkWorld ω π (ρ × List PlanState)} {visits : List Visit}
    {result : Except Error WalkStep}
    (h : w.logged.StepRun search plan token apiCalls budget world visits result last) :
    w.StepRun search plan token apiCalls budget world.dropLog visits result last.dropLog := by
  induction h with
  | tired => exact .tired
  | finished hend =>
    rw [dropLog_worldAtEnd]
    exact .finished hend
  | failed hcircle hfail => exact .failed hcircle hfail
  | accepted hfinds hfound =>
    rw [dropLog_worldAfter]
    exact .accepted ⟨hfinds.circle, hfinds.geo, hfinds.answer⟩ hfound
  | passed hfinds hempty _ ih =>
    rw [dropLog_worldAfter] at ih
    exact .passed ⟨hfinds.circle, hfinds.geo, hfinds.answer⟩ hempty ih

theorem run_step_dropLog (w : Walker π ρ) (search : CircleSearch ω) (name : String)
    (token : ResumeToken) (world : WalkWorld ω π (ρ × List PlanState)) :
    (w.step search name token).run world.dropLog =
        Prod.map id WalkWorld.dropLog ((w.logged.step search name token).run world) ∧
      w.visits search name token world.dropLog = w.logged.visits search name token world := by
  cases hplan : w.planOf name world.dropLog with
  | error e =>
    have hplan' : w.logged.planOf name world = .error e := hplan
    rw [run_step_of_error hplan, run_step_of_error hplan', visits, visits, hplan, hplan']
    exact ⟨rfl, rfl⟩
  | ok plan =>
    have hplan' : w.logged.planOf name world = .ok plan := hplan
    rw [run_step hplan, visits, hplan]
    exact (stepRun hplan' token).dropLog.run_eq

theorem run_walkFrom_dropLog (w : Walker π ρ) (search : CircleSearch ω) (name : String)
    (token : ResumeToken) (steps apiCalls features fuel : Nat)
    (world : WalkWorld ω π (ρ × List PlanState)) :
    (w.walkFrom search name token steps apiCalls features fuel).run world.dropLog =
        Prod.map id WalkWorld.dropLog
          ((w.logged.walkFrom search name token steps apiCalls features fuel).run world) ∧
      w.walkVisits search name token fuel world.dropLog =
        w.logged.walkVisits search name token fuel world := by
  induction fuel generalizing token steps apiCalls features world with
  | zero => exact ⟨rfl, rfl⟩
  | succ fuel ih =>
    obtain ⟨hstep, hvisits⟩ := run_step_dropLog w search name token world
    rw [run_walkFrom_succ, run_walkFrom_succ, walkVisits, walkVisits, hstep, hvisits]
    cases (w.logged.step search name token).run world with
    | mk result after =>
      cases result with
      | error e => exact ⟨rfl, rfl⟩
      | ok s =>
        obtain ⟨hrest, hlater⟩ := ih s.token (steps + 1) (apiCalls + s.apiCalls)
          (features + s.dataset.size) after
        simp only [goOn, Prod.map_apply, id]
        cases s.exhausted with
        | true => exact ⟨rfl, rfl⟩
        | false => exact ⟨hrest, congrArg _ hlater⟩

theorem run_isActiveOrDone_dropLog (name : String) (now : Time)
    (world : WalkWorld ω π (ρ × List PlanState)) :
    ((w.isActiveOrDone name now).run world.dropLog).1 =
      ((w.logged.isActiveOrDone name now).run world).1 := by
  have hstate : (w.state name).run world.dropLog =
      (w.progress.get name world.progress.1, world.dropLog) := rfl
  have hstate' : (w.logged.state name).run world =
      (w.progress.get name world.progress.1, world) := rfl
  rw [isActiveOrDone, isActiveOrDone, run_bind_eq hstate, run_bind_eq hstate']
  cases w.progress.get name world.progress.1 with
  | error e => rfl
  | ok state => cases state <;> rfl

theorem run_runToCompletion_dropLog (w : Walker π ρ) (search : CircleSearch ω) (name : String)
    (token : ResumeToken) (fuel : Nat) (world : WalkWorld ω π (ρ × List PlanState)) :
    (w.runToCompletion search name token fuel).run world.dropLog =
        Prod.map id WalkWorld.dropLog
          ((w.logged.runToCompletion search name token fuel).run world) ∧
      w.runVisits search name token fuel world.dropLog =
        w.logged.runVisits search name token fuel world := by
  let asked := { world with readings := world.readings + 1 }
  have hasked : ((w.isActiveOrDone name (w.clock world.readings)).run asked.dropLog).1 =
      ((w.logged.isActiveOrDone name (w.logged.clock world.readings)).run asked).1 :=
    run_isActiveOrDone_dropLog name _ asked
  have hwalk := run_walkFrom_dropLog w search name token 0 0 0 fuel asked
  rw [run_runToCompletion, run_runToCompletion, runVisits, runVisits]
  show (if ((w.isActiveOrDone name (w.clock world.readings)).run asked.dropLog).1 = true then
      _ else _) = _ ∧ (if ((w.isActiveOrDone name (w.clock world.readings)).run
        asked.dropLog).1 = true then _ else _) = _
  rw [hasked]
  cases ((w.logged.isActiveOrDone name (w.logged.clock world.readings)).run asked).1 with
  | true => exact ⟨rfl, rfl⟩
  | false => exact hwalk

/-- A call does the same without a log, and reads the same pages. -/
theorem run_call_dropLog (w : Walker π ρ) (name : String) (c : WalkCall ω π)
    (world : WalkWorld ω π (ρ × List PlanState)) :
    (w.call name c).run world.dropLog =
        Prod.map id WalkWorld.dropLog ((w.logged.call name c).run world) ∧
      w.callVisits name c world.dropLog = w.logged.callVisits name c world := by
  obtain ⟨kind, search, token, state, plans⟩ := c
  let given : WalkWorld ω π (ρ × List PlanState) := { world with search := state, plans := plans }
  cases kind with
  | step =>
    obtain ⟨hrun, hvisits⟩ := run_step_dropLog w search name token given
    exact ⟨congrArg (Prod.map WalkEnd.ofStep id) hrun, hvisits⟩
  | remaining fuel =>
    obtain ⟨hrun, hvisits⟩ := run_walkFrom_dropLog w search name token 0 0 0 fuel given
    exact ⟨congrArg (Prod.map WalkEnd.ofWalk id) hrun, hvisits⟩
  | run fuel =>
    obtain ⟨hrun, hvisits⟩ := run_runToCompletion_dropLog w search name token fuel given
    exact ⟨congrArg (Prod.map WalkEnd.ofWalk id) hrun, hvisits⟩

theorem afterCalls_dropLog (w : Walker π ρ) (name : String) (calls : List (WalkCall ω π))
    (world : WalkWorld ω π (ρ × List PlanState)) :
    w.afterCalls name world.dropLog calls = (w.logged.afterCalls name world calls).dropLog := by
  induction calls generalizing world with
  | nil => rfl
  | cons c calls ih =>
    have hcall := congrArg Prod.snd (run_call_dropLog w name c world).1
    rw [afterCalls, List.foldl_cons, hcall]
    exact ih _

/-! ### The log of a walk -/

/-- The log of a call: one state for each page, in order, and one more for the end of the plan. -/
theorem exists_log_call (hstore : w.progress.Keeps name) (c : WalkCall ω π)
    {world : WalkWorld ω π (ρ × List PlanState)} (h : w.progress.Logs name world.progress) :
    let run := (w.logged.call name c).run world
    w.progress.Logs name run.2.progress ∧
      ∃ changes, PlanChange.Tells changes (w.logged.callVisits name c world) run.1.isFinished ∧
        run.2.progress.2 = changes.foldl (PlanChange.logOn name) world.progress.2 := by
  obtain ⟨changes, htells, hprogress⟩ := exists_changes_call w.logged name c world
  obtain ⟨hlog, hlogs⟩ := h.foldl_write hstore changes
  simp only [hprogress]
  exact ⟨hlogs, changes, htells, hlog⟩

theorem logs_afterCalls (hstore : w.progress.Keeps name) (calls : List (WalkCall ω π))
    {world : WalkWorld ω π (ρ × List PlanState)} (h : w.progress.Logs name world.progress)
    (horderly : PlanState.IsOrderly world.progress.2) :
    let last := w.logged.afterCalls name world calls
    w.progress.Logs name last.progress ∧ PlanState.IsOrderly last.progress.2 := by
  induction calls generalizing world with
  | nil => exact ⟨h, horderly⟩
  | cons c calls ih =>
    obtain ⟨hlogs, changes, -, hlog⟩ := exists_log_call hstore c h
    exact ih hlogs (hlog ▸ horderly.foldl_logOn name changes)

/-- From a plan without a state on, whatever walks are made over it one after the other, the store
has the last of the states that were written for the plan.  All of these are sound, and each
precedes the later ones.  A call that ends with an error writes one state for each page that it
read, in order, and no more. -/
theorem log_afterCalls (w : Walker π ρ) (name : String) (hstore : w.progress.Keeps name)
    (world : WalkWorld ω π ρ) (hnone : w.progress.get name world.progress = .ok none)
    (calls : List (WalkCall ω π)) :
    let logged := w.logged.afterCalls name world.startLog calls
    let log := logged.progress.2
    let last := w.afterCalls name world calls
    last = logged.dropLog ∧
      w.progress.get name last.progress = .ok log.head? ∧
      (∀ s ∈ log, s.progress ≤ 100 ∧ (s.progress = 100 ↔ s.completedAt.isSome)) ∧
      (log.Pairwise fun later earlier => earlier.progress ≤ later.progress ∧
        (earlier.isComplete = true → later.isComplete = true)) ∧
      ∀ c e, ((w.call name c).run last).1 = .failed e →
        ∃ changes, PlanChange.Tells changes (w.callVisits name c last) false ∧
          ((w.logged.call name c).run logged).2.progress.2 =
            changes.foldl (PlanChange.logOn name) log ∧
          w.progress.get name ((w.call name c).run last).2.progress =
            .ok (changes.foldl (PlanChange.logOn name) log).head? := by
  intro logged log last
  have hlast : last = logged.dropLog := afterCalls_dropLog w name calls world.startLog
  have hstart : w.progress.Logs name world.startLog.progress :=
    ⟨hnone, by simp [WalkWorld.startLog]⟩
  have horderly : PlanState.IsOrderly world.startLog.progress.2 :=
    ⟨by simp [WalkWorld.startLog], .nil⟩
  obtain ⟨hlogs, hsound, hordered⟩ := logs_afterCalls hstore calls hstart horderly
  refine ⟨hlast, ?_, hsound, hordered, fun c e hfailed => ?_⟩
  · rw [hlast]
    exact hlogs.get_eq
  · obtain ⟨hcall, hvisits⟩ := run_call_dropLog w name c logged
    obtain ⟨hlogs', changes, htells, hlog⟩ := exists_log_call hstore c hlogs
    rw [hlast, hcall] at hfailed
    have hend : ((w.logged.call name c).run logged).1 = .failed e := hfailed
    rw [hend] at htells
    rw [hlast, hvisits, hcall]
    refine ⟨changes, htells, hlog, ?_⟩
    rw [← hlog]
    exact hlogs'.get_eq

/-- A walk that fails at the second of two circles, one that completes the plan, and one more page:
the percentages that are stored, newest first.  Another walk fails, and leaves the state of its
page. -/
theorem log_afterCalls_of_failures :
    let rows := ["10.0_10.0_1000.0_circle=1", "20.0_20.0_1000.0_circle=2", "end of search plan"]
    let place : Feature := { geometry := { lng := 10.0, lat := 10.0 }, properties := {} }
    let page : CircleResult := { dataset := { features := [place] }, apiCalls := 1 }
    let search : CircleSearch (List (Except Error CircleResult)) := fun _ answers =>
      (answers.headD (.error (.persistence "no answer")), answers.tail)
    let w : Walker (Table (List String)) (Table PlanState) :=
      { plans := .inMemory, progress := .inMemory, clock := fun n => .ofSeconds (100 * n) }
    let world : WalkWorld (List (Except Error CircleResult)) (Table (List String))
        (Table PlanState) := { search := [], plans := [("p", rows)], progress := [] }
    let call (kind : WalkKind) (answers : List (Except Error CircleResult)) :
        WalkCall (List (Except Error CircleResult)) (Table (List String)) :=
      { kind, search, token := {}, state := answers, plans := [("p", rows)] }
    let calls := [call (.remaining 5) [.ok page], call (.run 5) [.ok page, .ok page],
      call .step [.ok page]]
    let failing := call (.remaining 5) [.ok page]
    w.progress.Keeps "p" ∧ w.progress.get "p" world.progress = .ok none ∧
      (w.logged.afterCalls "p" world.startLog calls).progress.2.map (·.progress) =
        [100, 100, 99, 50, 50] ∧
      ((w.logged.afterCalls "p" world.startLog calls).progress.2.Pairwise fun later earlier =>
        earlier.progress ≤ later.progress ∧
          (earlier.isComplete = true → later.isComplete = true)) ∧
      ((w.call "p" failing).run (w.afterCalls "p" world calls)).1 =
        .failed (.persistence "no answer") ∧
      ∃ changes,
        PlanChange.Tells changes (w.callVisits "p" failing (w.afterCalls "p" world calls)) false ∧
        w.progress.get "p"
            ((w.call "p" failing).run (w.afterCalls "p" world calls)).2.progress =
          .ok (changes.foldl (PlanChange.logOn "p")
            (w.logged.afterCalls "p" world.startLog calls).progress.2).head? := by
  intro rows place page search w world call calls failing
  have hkeeps : w.progress.Keeps "p" := ProgressStore.keeps_inMemory "p"
  have hend : ((w.call "p" failing).run (w.afterCalls "p" world calls)).1 =
      .failed (.persistence "no answer") := by decide +kernel
  obtain ⟨-, -, -, hordered, hfailed⟩ := log_afterCalls w "p" hkeeps world rfl calls
  obtain ⟨changes, htells, -, hlast⟩ := hfailed failing _ hend
  exact ⟨hkeeps, rfl, by decide +kernel, hordered, hend, changes, htells, hlast⟩

end Walker

end PlaceSearch
