import PlaceSearch.Proofs.Service.Events
import PlaceSearch.Proofs.Walk.Cover
import PlaceSearch.Proofs.Walk.ResumeToken

/-!
# Plans that are recorded as completed

A plan is recorded as completed by a walk that reached its end, from wherever the walk began.  The
walks in the background begin where a step of a fetch ended, and such a step begins where the token
of the fetch says.  So all rows of a completed plan were dealt with, except for those that a client
jumped over: a token may name any row, also one that no client was ever told to go on with.
-/

namespace PlaceSearch

/-- All circles of the plan before a row are dealt with. -/
def Plan.DoneBefore (p : Plan) (done : Nat → Prop) (row : Nat) : Prop :=
  ∀ i < row, ∀ level c, p.entry? i = some (.circle level c) → done i

theorem Plan.DoneBefore.mono {p : Plan} {done done' : Nat → Prop} {row : Nat}
    (h : p.DoneBefore done row) (hdone : ∀ i, done i → done' i) : p.DoneBefore done' row :=
  fun i hi level c hcircle => hdone i (h i hi level c hcircle)

namespace Service

variable {σ π ρ : Type}

/-- The rows that an event marks as passed over. -/
def marksOf (s : Service σ π ρ) (state : ServiceState σ π ρ) (e : ServiceEvent) : List Nat :=
  match s.stepOf state e with
  | none => []
  | some t => s.walker.marks t.search t.plan t.token t.world

/-- The rows that were marked as passed over. -/
def marked (s : Service σ π ρ) (state : ServiceState σ π ρ) (events : List ServiceEvent) :
    List Nat :=
  s.along s.marksOf state events

/-- Some fetch went on behind a row, though no client had been told to go on behind it so far. -/
def IsJumped (s : Service σ π ρ) (state : ServiceState σ π ρ) (events : List ServiceEvent)
    (row : Nat) : Prop :=
  ∃ before q country city later token, events = before ++ .fetch q country city :: later ∧
    ResumeToken.decode q.page = .ok token ∧ row < token.row ∧
    ∀ text ∈ s.told state before, ∀ t, ResumeToken.decode (some text) = .ok t → t.row ≤ row

/-- Some fetch found no plan of a name and stored this one, of its circle. -/
def MakesPlan (s : Service σ π ρ) (state : ServiceState σ π ρ) (events : List ServiceEvent)
    (name : String) (plan : Plan) : Prop :=
  ∃ before q country city later token n, events = before ++ .fetch q country city :: later ∧
    planName q.query country city = name ∧ ResumeToken.decode q.page = .ok token ∧
    s.walker.plans.read name (s.after state before).world.plans = .error (.planNotFound n) ∧
    Plan.ofRows name (generatePlan q.circle s.walker.settings.minRadius) = .ok plan

/-- The row was searched, was marked, or was jumped over. -/
def IsDone (s : Service σ π ρ) (state : ServiceState σ π ρ) (events : List ServiceEvent)
    (row : Nat) : Prop :=
  row ∈ s.searched state events ∨ row ∈ s.marked state events ∨ s.IsJumped state events row

/-- There is no plan to walk. -/
structure Unplanned (s : Service σ π ρ) (name : String) (state : ServiceState σ π ρ)
    (told : List String) : Prop where
  planOf : ∃ err, s.walker.planOf name state.world = .error err
  loads : state.loads = []
  told : told = []
  progress : ¬ s.walker.progress.IsComplete name state.world.progress

/-- What holds while a plan is walked, of which some rows are done: the source has it but for some
marks, of rows that are done; so are all rows before one where a background walk or a client goes
on, and all rows if the plan is completed. -/
structure Walks (s : Service σ π ρ) (name : String) (plan : Plan) (done : Nat → Prop)
    (state : ServiceState σ π ρ) (told : List String) : Prop where
  closes : plan.ClosesLast
  planOf : ∃ stored, s.walker.planOf name state.world = .ok stored ∧ plan.Marks stored ∧
    ∀ i level c, plan.entry? i = some (.circle level c) →
      stored.entry? i = some (.skip level) → done i
  loads : ∀ l ∈ state.loads, l.plan = name ∧ plan.DoneBefore done l.token.row
  told : ∀ text ∈ told, ∀ token, ResumeToken.decode (some text) = .ok token →
    plan.DoneBefore done token.row
  progress : s.walker.progress.IsComplete name state.world.progress →
    ∀ row, plan.DoneBefore done row

variable {s : Service σ π ρ} {name : String} {plan : Plan} {done done' : Nat → Prop}
  {state state' : ServiceState σ π ρ} {told told' : List String} {events : List ServiceEvent}
  {e : ServiceEvent}

namespace Walks

theorem mono (h : s.Walks name plan done state told) (hdone : ∀ i, done i → done' i)
    (hplans : state'.world.plans = state.world.plans)
    (hprogress : state'.world.progress = state.world.progress)
    (hloads : ∀ l ∈ state'.loads, l ∈ state.loads) : s.Walks name plan done' state' told where
  closes := h.closes
  planOf := by
    obtain ⟨stored, hstored, hmarks, hskips⟩ := h.planOf
    refine ⟨stored, ?_, hmarks, fun i level c hi hskip => hdone i (hskips i level c hi hskip)⟩
    rw [Walker.planOf, hplans]
    exact hstored
  loads l hl := by
    obtain ⟨hname, hbefore⟩ := h.loads l (hloads l hl)
    exact ⟨hname, hbefore.mono hdone⟩
  told text htext token htoken := (h.told text htext token htoken).mono hdone
  progress hcomplete row := by
    rw [hprogress] at hcomplete
    exact (h.progress hcomplete row).mono hdone

/-- A step of a walk that begins behind rows that are done, and whose own rows are done, ends so. -/
theorem step (h : s.Walks name plan done state told) (hplans : s.walker.plans.IsHonest name)
    (hstore : s.walker.progress.IsHonest name) (hdone : ∀ i, done i → done' i)
    {search : CircleSearch (Session σ)} {token : ResumeToken}
    (htoken : plan.DoneBefore done' token.row)
    {result : Except Error WalkStep} {last : WalkWorld (Session σ) π ρ}
    (hstep : (s.walker.step search name token).run state.world = (result, last))
    (hvisits : ∀ v ∈ s.walker.visits search name token state.world, done' v.row)
    (hmarked : ∀ i ∈ s.walker.marks search name token state.world, done' i)
    (hworld : state'.world = last)
    (hloads : ∀ l ∈ state'.loads, l ∈ state.loads ∨
      ∃ step, result = .ok step ∧ l.plan = name ∧ l.token = step.token)
    (htold : ∀ text ∈ told', text ∈ told ∨
      ∃ step next, result = .ok step ∧ step.next = some next ∧ text = next.encode) :
    s.Walks name plan done' state' told' := by
  obtain ⟨stored, hstored, hmarks, hskips⟩ := h.planOf
  have hcloses : stored.ClosesLast := h.closes.of_marks hmarks
  have hrun : s.walker.StepRun search stored token 0 s.walker.settings.maxEmptySteps state.world
      (s.walker.visits search name token state.world)
      ((s.walker.step search name token).run state.world).1
      ((s.walker.step search name token).run state.world).2 := Walker.stepRun hstored token
  rw [hstep] at hrun
  have hmark : ∀ i level c, stored.entry? i = some (.circle level c) →
      Plan.entry? (s.walker.planAfterAll stored
        (s.walker.visits search name token state.world)) i = some (.skip level) → done' i :=
    fun i level c hcircle hskip => hmarked i (Walker.mem_marks hstored hcircle hskip)
  -- The rows up to where the step goes on are done, as far as they were not done before.
  have hbefore : ∀ step, result = .ok step → plan.DoneBefore done' step.token.row := by
    intro step hresult i hi level c hcircle
    rcases Nat.lt_or_ge i token.row with hlt | hle
    · exact htoken i hlt level c hcircle
    · rcases hmarks.entry?_circle_or_skip hcircle with hcircle' | hskip
      · rcases hrun.covers hcloses hresult hcircle' hle hi with ⟨v, hv, rfl⟩ | hskip
        · exact hvisits v hv
        · exact hmark i level c hcircle' hskip
      · exact hdone i (hskips i level c hcircle hskip)
  constructor
  case closes => exact h.closes
  case planOf =>
    obtain ⟨-, hrows⟩ := Walker.planOf_eq_ok_iff.mp hstored
    obtain ⟨stored', hstored', hkept, hmarks'⟩ :=
      hrun.exists_planOf hplans hrows hstored (.refl stored)
    refine ⟨stored', hworld ▸ hstored', hmarks.trans hkept, fun i level c hcircle hskip => ?_⟩
    rcases hmarks.entry?_circle_or_skip hcircle with hcircle' | hskip'
    · exact hmark i level c hcircle' (hmarks'.entry?_of_skip hskip)
    · exact hdone i (hskips i level c hcircle hskip')
  case loads =>
    intro l hl
    rcases hloads l hl with hl | ⟨step, hresult, hname, htoken'⟩
    · obtain ⟨hname, hbefore'⟩ := h.loads l hl
      exact ⟨hname, hbefore'.mono hdone⟩
    · exact ⟨hname, htoken' ▸ hbefore step hresult⟩
  case told =>
    intro text htext token' hdecode
    rcases htold text htext with htext | ⟨step, next, hresult, hnext, rfl⟩
    · exact (h.told text htext token' hdecode).mono hdone
    · have hrow : step.token = next := by rw [WalkStep.token, hnext, Option.getD_some]
      rw [ResumeToken.row_of_decode_encode hdecode, ← hrow]
      exact hbefore step hresult
  case progress =>
    intro hcomplete row i _ level c hcircle
    have hname := Walker.name_of_planOf hstored
    rw [hworld, ← hname] at hcomplete
    rcases hrun.isComplete (hname.symm ▸ hstore) hcomplete with hcomplete | ⟨step, hresult, hend⟩
    · rw [hname] at hcomplete
      exact hdone i (h.progress hcomplete (i + 1) i (Nat.lt_succ_self i) level c hcircle)
    · have hlt : i < stored.size := by
        rcases hmarks.entry?_circle_or_skip hcircle with hcircle' | hskip
        · exact Plan.lt_size_of_entry? hcircle'
        · exact Plan.lt_size_of_entry? hskip
      have hsize := hrun.size_le_row hresult hend
      exact hbefore step hresult i (Nat.lt_of_lt_of_le hlt hsize) level c hcircle

end Walks

/-! ## Histories -/

theorem told_concat : s.told state (events ++ [e]) =
    s.told state events ++ ((s.handle e).run (s.after state events)).1.toList :=
  along_concat _ events e

theorem IsJumped.concat {row : Nat} (h : s.IsJumped state events row) (e : ServiceEvent) :
    s.IsJumped state (events ++ [e]) row := by
  obtain ⟨before, q, country, city, later, token, rfl, hrest⟩ := h
  exact ⟨before, q, country, city, later ++ [e], token, by simp, hrest⟩

theorem MakesPlan.concat (h : s.MakesPlan state events name plan) (e : ServiceEvent) :
    s.MakesPlan state (events ++ [e]) name plan := by
  obtain ⟨before, q, country, city, later, token, n, rfl, hrest⟩ := h
  exact ⟨before, q, country, city, later ++ [e], token, n, by simp, hrest⟩

theorem IsDone.concat {row : Nat} (h : s.IsDone state events row) (e : ServiceEvent) :
    s.IsDone state (events ++ [e]) row := by
  rcases h with h | h | h
  · exact .inl (by rw [searched, along_concat]; exact List.mem_append_left _ h)
  · exact .inr (.inl (by rw [marked, along_concat]; exact List.mem_append_left _ h))
  · exact .inr (.inr (h.concat e))

/-- The rows before the one where a fetch goes on are done, or are jumped over by it. -/
theorem doneBefore_of_fetch {q : SearchRequest} {country city : String} {token : ResumeToken}
    (htoken : ResumeToken.decode q.page = .ok token)
    (htold : ∀ text ∈ s.told state events, ∀ token, ResumeToken.decode (some text) = .ok token →
      plan.DoneBefore (s.IsDone state events) token.row) :
    plan.DoneBefore (s.IsDone state (events ++ [.fetch q country city])) token.row := by
  intro i hi level c hcircle
  by_cases hled : ∃ text ∈ s.told state events, ∃ t, ResumeToken.decode (some text) = .ok t ∧
      i < t.row
  · obtain ⟨text, htext, t, hdecode, hlt⟩ := hled
    exact (htold text htext t hdecode i hlt level c hcircle).concat _
  · simp only [not_exists, not_and, Nat.not_lt] at hled
    exact .inr (.inr ⟨events, q, country, city, [], token, rfl, htoken, hi, hled⟩)

/-- An event that takes a step from rows that are done ends so. -/
theorem walks_concat {t : StepTaken σ π ρ} (ht : s.stepOf (s.after state events) e = some t)
    (hplans : s.walker.plans.IsHonest name) (hstore : s.walker.progress.IsHonest name)
    (hname : t.plan = name)
    (h : s.Walks name plan (s.IsDone state events) { s.after state events with world := t.world }
      (s.told state events))
    (htoken : plan.DoneBefore (s.IsDone state (events ++ [e])) t.token.row) :
    s.Walks name plan (s.IsDone state (events ++ [e])) (s.after state (events ++ [e]))
      (s.told state (events ++ [e])) := by
  subst hname
  cases hstep : (s.walker.step t.search t.plan t.token).run t.world with
  | mk result last =>
    obtain ⟨text, state', hrun, hworld, hloads, htext⟩ := exists_run_handle ht hstep
    rw [after_concat, told_concat, hrun]
    refine h.step hplans hstore (fun i hi => hi.concat e) htoken hstep ?_ ?_ hworld hloads ?_
    · intro v hv
      refine .inl ?_
      rw [searched, along_concat, rowsOf, ht]
      exact List.mem_append_right _ (List.mem_map_of_mem hv)
    · intro i hi
      refine .inr (.inl ?_)
      rw [marked, along_concat, marksOf, ht]
      exact List.mem_append_right _ hi
    · intro text' htext'
      rcases List.mem_append.mp htext' with htext' | htext'
      · exact .inl htext'
      · exact .inr (htext text' (Option.mem_toList.mp htext'))

/-- An event that lets nothing go on, and after which no plan can be read, leaves no plan to walk. -/
theorem Unplanned.concat_of_error
    (h : s.Unplanned name (s.after state events) (s.told state events))
    (hrun : (s.handle e).run (s.after state events) = (none, state'))
    (hloads : ∀ l ∈ state'.loads, l ∈ (s.after state events).loads)
    (hplan : ∃ err, s.walker.planOf name state'.world = .error err)
    (hprogress : state'.world.progress = (s.after state events).world.progress) :
    s.Unplanned name (s.after state (events ++ [e])) (s.told state (events ++ [e])) := by
  rw [after_concat, told_concat, hrun, h.told]
  refine ⟨hplan, List.eq_nil_iff_forall_not_mem.mpr fun l hl => ?_, rfl, ?_⟩
  · have hl' := hloads l hl
    rw [h.loads] at hl'
    cases hl'
  · rw [hprogress]
    exact h.progress

/-- A fetch before which there is no plan to walk may make it, and then takes the first step. -/
theorem Unplanned.concat_fetch {q : SearchRequest} {country city : String} {t : StepTaken σ π ρ}
    (h : s.Unplanned (planName q.query country city) (s.after state events) (s.told state events))
    (hplans : s.walker.plans.IsHonest (planName q.query country city))
    (hstore : s.walker.progress.IsHonest (planName q.query country city))
    (ht : s.stepOf (s.after state events) (.fetch q country city) = some t) :
    let events' := events ++ [.fetch q country city]
    s.Unplanned (planName q.query country city) (s.after state events') (s.told state events') ∨
      ∃ plan, s.MakesPlan state events' (planName q.query country city) plan ∧
        s.Walks (planName q.query country city) plan (s.IsDone state events')
          (s.after state events') (s.told state events') := by
  intro events'
  obtain ⟨err, hplan⟩ := h.planOf
  obtain ⟨token, plan, world, htoken, hensure, rfl⟩ := exists_of_stepOf_fetch ht
  obtain ⟨made, world', hrun', hprogress, hmade⟩ :=
    Walker.run_ensurePlan_of_error hplans hplan q.circle
  obtain ⟨rfl, rfl⟩ := Prod.mk.inj (hensure.symm.trans hrun')
  rcases hmade with ⟨err', hplan'⟩ | ⟨plan', n, -, hplan', hread, hmade⟩
  · -- The plan was not stored: the step fails.
    obtain ⟨text, state', hrun, hworld, hloads, htext⟩ :=
      exists_run_handle ht (Walker.run_step_of_error hplan')
    obtain rfl : text = none := by
      rw [Option.eq_none_iff_forall_ne_some]
      intro text' htext'
      obtain ⟨_, _, hok, -⟩ := htext text' htext'
      cases hok
    refine .inl (h.concat_of_error hrun (fun l hl => ?_) ⟨err', hworld ▸ hplan'⟩ ?_)
    · rcases hloads l hl with hl | ⟨_, hok, -⟩
      · exact hl
      · cases hok
    · rw [hworld]
      exact hprogress
  · refine .inr ⟨plan',
      ⟨events, q, country, city, [], token, n, rfl, rfl, htoken, hread, hmade⟩,
      walks_concat ht hplans hstore rfl ?_ (doneBefore_of_fetch htoken ?_)⟩
    · constructor
      case closes => exact Plan.closesLast_generatePlan hmade
      case planOf =>
        refine ⟨plan', hplan', .refl plan', fun i level c hcircle hskip => ?_⟩
        rw [hcircle] at hskip
        cases hskip
      case loads => simp [h.loads]
      case told => simp [h.told]
      case progress => exact fun hcomplete => absurd (hprogress ▸ hcomplete) h.progress
    · simp [h.told]

/-- An event before which there is no plan to walk leaves none, or is the fetch that makes it. -/
theorem Unplanned.concat (h : s.Unplanned name (s.after state events) (s.told state events))
    (hplans : s.walker.plans.IsHonest name) (hstore : s.walker.progress.IsHonest name)
    (hfor : e.IsFor name) :
    s.Unplanned name (s.after state (events ++ [e])) (s.told state (events ++ [e])) ∨
      ∃ plan, s.MakesPlan state (events ++ [e]) name plan ∧
        s.Walks name plan (s.IsDone state (events ++ [e])) (s.after state (events ++ [e]))
          (s.told state (events ++ [e])) := by
  obtain ⟨err, hplan⟩ := h.planOf
  cases ht : s.stepOf (s.after state events) e with
  | none =>
    obtain ⟨state', hrun, hloads, hworld⟩ := exists_run_handle_of_stepOf_eq_none ht
    refine .inl ?_
    rcases hworld with hworld | ⟨q, country, city, err, rfl, hensure⟩
    · exact h.concat_of_error hrun hloads ⟨err, hworld ▸ hplan⟩ (by rw [hworld])
    · obtain rfl : planName q.query country city = name := hfor
      obtain ⟨made, world', hrun', hprogress, hmade⟩ :=
        Walker.run_ensurePlan_of_error hplans hplan q.circle
      obtain ⟨rfl, rfl⟩ := Prod.mk.inj (hensure.symm.trans hrun')
      rcases hmade with hplan' | ⟨_, _, hok, -⟩
      · exact h.concat_of_error hrun hloads hplan' hprogress
      · cases hok
  | some t =>
    cases e with
    | fetch q country city =>
      obtain rfl : planName q.query country city = name := hfor
      exact h.concat_fetch hplans hstore ht
    | advance place =>
      rw [stepOf, h.loads] at ht
      cases ht
    | drop place => cases ht

/-- Every event keeps what is known of the walks over a plan. -/
theorem Walks.concat (h : s.Walks name plan (s.IsDone state events) (s.after state events)
      (s.told state events))
    (hplans : s.walker.plans.IsHonest name) (hstore : s.walker.progress.IsHonest name)
    (hfor : e.IsFor name) :
    s.Walks name plan (s.IsDone state (events ++ [e])) (s.after state (events ++ [e]))
      (s.told state (events ++ [e])) := by
  obtain ⟨stored, hstored, -⟩ := h.planOf
  cases ht : s.stepOf (s.after state events) e with
  | none =>
    obtain ⟨state', hrun, hloads, hworld⟩ := exists_run_handle_of_stepOf_eq_none ht
    rw [after_concat, told_concat, hrun]
    have hsame : state'.world = (s.after state events).world := by
      rcases hworld with hworld | ⟨q, country, city, err, rfl, hensure⟩
      · exact hworld
      · obtain rfl : planName q.query country city = name := hfor
        rw [Walker.run_ensurePlan hstored] at hensure
        cases hensure
    rw [Option.toList_none, List.append_nil]
    exact h.mono (fun i hi => hi.concat e) (by rw [hsame]) (by rw [hsame]) hloads
  | some t =>
    cases e with
    | fetch q country city =>
      obtain ⟨token, plan', world, htoken, hensure, rfl⟩ := exists_of_stepOf_fetch ht
      obtain rfl : planName q.query country city = name := hfor
      rw [Walker.run_ensurePlan hstored] at hensure
      obtain ⟨-, rfl⟩ := Prod.mk.inj hensure
      refine walks_concat ht hplans hstore rfl ?_ (doneBefore_of_fetch htoken h.told)
      exact h.mono (fun _ hi => hi) rfl rfl fun _ hl => hl
    | advance place =>
      obtain ⟨l, hload, rfl⟩ := Option.map_eq_some_iff.mp ht
      obtain ⟨hname, hbefore⟩ := h.loads l (List.mem_of_getElem? hload)
      exact walks_concat ht hplans hstore hname h (hbefore.mono fun i hi => hi.concat _)
    | drop place => cases ht

/-- At any time of a history there is no plan to walk yet, or what is known of its walks holds.  The
induction is on the history. -/
theorem unplanned_or_walks (hplans : s.walker.plans.IsHonest name)
    (hstore : s.walker.progress.IsHonest name) (hstart : s.Unplanned name state [])
    (events : List ServiceEvent) (hfor : ∀ e ∈ events, e.IsFor name) :
    s.Unplanned name (s.after state events) (s.told state events) ∨
      ∃ plan, s.MakesPlan state events name plan ∧
        s.Walks name plan (s.IsDone state events) (s.after state events)
          (s.told state events) := by
  induction events using List.reverseRecOn with
  | nil => exact .inl hstart
  | append_singleton events e ih =>
    have hlast : e.IsFor name := hfor e (by simp)
    rcases ih fun e he => hfor e (List.mem_append_left _ he) with h | ⟨plan, hmakes, h⟩
    · exact h.concat hplans hstore hlast
    · exact .inr ⟨plan, hmakes.concat e, h.concat hplans hstore hlast⟩

/-! ## Completed plans -/

/-- A client that goes on only as it was told jumps over no row. -/
theorem not_isJumped (htold : ∀ before q country city later,
      events = before ++ .fetch q country city :: later →
      q.page = none ∨ ∃ text ∈ s.told state before, q.page = some text) (row : Nat) :
    ¬ s.IsJumped state events row := by
  rintro ⟨before, q, country, city, later, token, hevents, htoken, hrow, hled⟩
  rcases htold before q country city later hevents with hpage | ⟨text, htext, hpage⟩
  · rw [hpage] at htoken
    obtain rfl : {} = token := Except.ok.inj htoken
    exact absurd hrow (Nat.not_lt_zero row)
  · rw [hpage] at htoken
    exact absurd hrow (Nat.not_lt.mpr (hled text htext token htoken))

/-- If a plan that was neither stored nor completed at first is completed after some fetches and
steps of background walks, in any order, then some fetch stored it, and every row of it that was a
circle at that time was searched, was marked as passed over, or was jumped over by a fetch that went
on behind it, though no client had been told to go on behind it.  If all clients go on only as they
were told, every such row was searched or marked. -/
theorem exists_makesPlan_of_isComplete (hplans : s.walker.plans.IsHonest name)
    (hstore : s.walker.progress.IsHonest name)
    (hplan : ∃ n, s.walker.plans.read name state.world.plans = .error (.planNotFound n))
    (hprogress : ¬ s.walker.progress.IsComplete name state.world.progress)
    (hloads : state.loads = []) (hfor : ∀ e ∈ events, e.IsFor name)
    (hcomplete : s.walker.progress.IsComplete name (s.after state events).world.progress) :
    ∃ plan, s.MakesPlan state events name plan ∧
      (∀ i level c, plan.entry? i = some (.circle level c) →
        i ∈ s.searched state events ∨ i ∈ s.marked state events ∨ s.IsJumped state events i) ∧
      ((∀ before q country city later, events = before ++ .fetch q country city :: later →
          q.page = none ∨ ∃ text ∈ s.told state before, q.page = some text) →
        ∀ i level c, plan.entry? i = some (.circle level c) →
          i ∈ s.searched state events ∨ i ∈ s.marked state events) := by
  obtain ⟨n, hread⟩ := hplan
  have hstart : s.Unplanned name state [] :=
    ⟨⟨.planNotFound n, by rw [Walker.planOf, hread]; rfl⟩, hloads, rfl, hprogress⟩
  rcases unplanned_or_walks hplans hstore hstart events hfor with h | ⟨plan, hmakes, h⟩
  · exact absurd hcomplete h.progress
  · have hdone : ∀ i level c, plan.entry? i = some (.circle level c) → s.IsDone state events i :=
      fun i level c hcircle =>
        h.progress hcomplete (i + 1) i (Nat.lt_succ_self i) level c hcircle
    refine ⟨plan, hmakes, hdone, fun htold i level c hcircle => ?_⟩
    rcases hdone i level c hcircle with hsearched | hmarked | hjumped
    · exact .inl hsearched
    · exact .inr hmarked
    · exact absurd hjumped (not_isJumped htold i)

/-- A client that was told nothing asks to go on behind the only circle of a plan that is not even
made yet: the plan is completed at once, and the circle is neither searched nor marked. -/
theorem exists_makesPlan_of_isComplete_of_foreign_token :
    let q : SearchRequest :=
      { query := "cafe", type := .categories, circle := ⟨⟨59.33, 18.06⟩, 1500.0⟩,
        page := some "@#$1", keepIds := false }
    let s : Service (Table Dataset) (Table (List String)) (Table PlanState) :=
      { searcher :=
          { transport := fun _ _ => .lost "no provider", policy := {}, store := .inMemory }
        walker := { plans := .inMemory, progress := .inMemory, clock := fun n => .ofSeconds n } }
    let state : ServiceState (Table Dataset) (Table (List String)) (Table PlanState) :=
      { world := { search := { store := [] }, plans := [], progress := [] } }
    let events : List ServiceEvent := [.fetch q "se" "stockholm"]
    s.walker.progress.IsComplete "plan_cafe_se_stockholm" (s.after state events).world.progress ∧
      s.searched state events = [] ∧ s.marked state events = [] ∧
      s.IsJumped state events 0 := by
  intro q s state events
  have hrows : generatePlan q.circle s.walker.settings.minRadius =
      ["59.330000_18.060000_1500.0_circle=1", "end of search plan"] := by decide +kernel
  have hget : (s.after state events).world.progress.get? "plan_cafe_se_stockholm" =
      some (.completed "plan_cafe_se_stockholm" 2 0 (.ofSeconds 1)) := by decide +kernel
  have hcomplete : s.walker.progress.IsComplete "plan_cafe_se_stockholm"
      (s.after state events).world.progress := ⟨_, congrArg Except.ok hget, rfl⟩
  have hsearched : s.searched state events = [] := by decide +kernel
  have hmarked : s.marked state events = [] := by decide +kernel
  have hfor : ∀ e ∈ events, e.IsFor "plan_cafe_se_stockholm" :=
    List.forall_mem_singleton.mpr (rfl : planName "cafe" "se" "stockholm" = _)
  obtain ⟨plan, ⟨before, q', country, city, later, -, -, hevents, -, -, -, hplan⟩, hdone, -⟩ :=
    exists_makesPlan_of_isComplete (PlanSource.keeps_inMemory "plan_cafe_se_stockholm").isHonest
      (ProgressStore.isHonest_inMemory _) ⟨_, rfl⟩ (by rintro ⟨_, hnone, -⟩; cases hnone) rfl
      hfor hcomplete
  have hq : q' = q := by
    cases before with
    | nil => exact (ServiceEvent.fetch.inj (List.cons.inj hevents).1).1.symm
    | cons e before => simp [events] at hevents
  refine ⟨hcomplete, hsearched, hmarked, ?_⟩
  rw [hq, hrows] at hplan
  obtain rfl := Except.ok.inj hplan
  rcases hdone 0 "1" _ rfl with h | h | h
  · rw [hsearched] at h
    cases h
  · rw [hmarked] at h
    cases h
  · exact h

end Service

end PlaceSearch
