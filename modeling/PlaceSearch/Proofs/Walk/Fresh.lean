import PlaceSearch.Proofs.Walk.Calls

/-!
# When a plan counts as fresh

A plan is left alone while it is being walked, and for some time after it was completed.  What has
happened to it is told by the changes that the walks made to its state: it was completed by the last
change for the end of the plan, and it is being walked if the last change of all is a page and was
made a moment ago.

The state that is stored keeps both times, but a plan that was completed once stays completed.  So
of a plan that is walked again only the time of its completion is asked for, and once that lies back
too far, another walk starts beside the one that is under way.
-/

namespace PlaceSearch

/-! ## The times of a state -/

namespace PlanChange

/-- The last change for the end of the plan. -/
def lastFinish? (changes : List PlanChange) : Option PlanChange :=
  (changes.filter isFinish).getLast?

theorem lastFinish?_concat (changes : List PlanChange) (c : PlanChange) :
    lastFinish? (changes ++ [c]) = if c.isFinish then some c else lastFinish? changes := by
  rw [lastFinish?, List.filter_append, List.filter_singleton]
  cases c.isFinish with
  | true => exact List.getLast?_concat
  | false => exact congrArg _ (List.append_nil _)

theorem isSome_lastFinish? (changes : List PlanChange) :
    (lastFinish? changes).isSome = changes.any isFinish := by
  rw [lastFinish?, Bool.eq_iff_iff, List.any_eq_true, List.getLast?_isSome]
  simp [List.filter_eq_nil_iff]

@[simp] theorem lastUpdated_apply (c : PlanChange) (s : PlanState) :
    (c.apply s).lastUpdated = some c.time := by
  cases c <;> rfl

@[simp] theorem completedAt_apply (c : PlanChange) (s : PlanState) :
    (c.apply s).completedAt = if c.isFinish then some c.time else s.completedAt := by
  cases c <;> rfl

/-- A change for each page, and one for the end of the plan. -/
theorem Tells.map_isFinish {changes : List PlanChange} {visits : List Visit} {finished : Bool}
    (h : Tells changes visits finished) :
    changes.map isFinish =
      List.replicate visits.length false ++ List.replicate finished.toNat true := by
  induction h with
  | stop => rfl
  | finish => rfl
  | page v progress now _ ih => exact congrArg (false :: ·) ih

/-- A state keeps the time of the last change. -/
theorem lastUpdated_stateAfter (name : String) (changes : List PlanChange) :
    (stateAfter name changes).lastUpdated = changes.getLast?.map time := by
  cases changes using List.reverseRecOn with
  | nil => rfl
  | append_singleton changes c =>
    rw [stateAfter_concat, lastUpdated_apply, List.getLast?_concat, Option.map_some]

/-- A state keeps the time of the last change for the end of the plan, whatever comes after it. -/
theorem completedAt_stateAfter (name : String) (changes : List PlanChange) :
    (stateAfter name changes).completedAt = (lastFinish? changes).map time := by
  induction changes using List.reverseRecOn with
  | nil => rfl
  | append_singleton changes c ih =>
    rw [stateAfter_concat, completedAt_apply, lastFinish?_concat, ih]
    cases c.isFinish <;> rfl

end PlanChange

/-! ## Fresh plans -/

namespace WalkerSettings

variable (settings : WalkerSettings) (changes : List PlanChange) (now : Time)

/-- A plan is fresh that was completed recently, or whose last change is a page that was read a
moment ago. -/
def Fresh : Prop :=
  (∃ c, PlanChange.lastFinish? changes = some c ∧ now.since c.time < settings.completedWindow) ∨
    ∃ c, changes.getLast? = some c ∧ c.isFinish = false ∧
      now.since c.time < settings.inProgressWindow

/-- A plan was completed, not recently, and since then a page was read a moment ago. -/
def WalkedAgain : Prop :=
  (∃ c, PlanChange.lastFinish? changes = some c ∧ settings.completedWindow ≤ now.since c.time) ∧
    ∃ c, changes.getLast? = some c ∧ c.isFinish = false ∧
      now.since c.time < settings.inProgressWindow

variable {settings changes now}

theorem WalkedAgain.fresh (h : settings.WalkedAgain changes now) : settings.Fresh changes now :=
  .inr h.2

end WalkerSettings

namespace Walker

variable {ω π ρ : Type} (w : Walker π ρ) (name : String)

/-- A state counts as fresh if the changes to it make the plan fresh, except by a page that was read
after a completion. -/
theorem isFresh_stateAfter_iff (changes : List PlanChange) (now : Time) :
    w.isFresh (PlanChange.stateAfter name changes) now = true ↔
      w.settings.Fresh changes now ∧ ¬ w.settings.WalkedAgain changes now := by
  have hcomplete := PlanChange.isSome_lastFinish? changes
  rw [isFresh, PlanChange.isComplete_stateAfter, PlanChange.completedAt_stateAfter,
    PlanChange.lastUpdated_stateAfter, ← hcomplete]
  cases hfinish : PlanChange.lastFinish? changes with
  | some c =>
    simp only [WalkerSettings.Fresh, WalkerSettings.WalkedAgain, hfinish, Option.isSome_some,
      if_true, Option.map_some, Option.any_some, decide_eq_true_eq, Option.some.injEq,
      exists_eq_left', not_and_or]
    by_cases hrecent : now.since c.time < w.settings.completedWindow
    · simp [hrecent, Int.not_le.mpr hrecent]
    · simp [hrecent, Int.not_lt.mp hrecent]
  | none =>
    have hpage : ∀ c, changes.getLast? = some c → c.isFinish = false := by
      intro c hc
      rw [hfinish] at hcomplete
      simpa using List.any_eq_false.mp hcomplete.symm c (List.mem_of_getLast? hc)
    simp only [WalkerSettings.Fresh, WalkerSettings.WalkedAgain, hfinish]
    cases hlast : changes.getLast? with
    | none => simp
    | some c => simp [hpage c hlast]

/-! ## Calls -/

variable {name}

/-- The changes that some calls make to the state of a plan, one call after the other, and the times
at which they make them. -/
inductive Records (w : Walker π ρ) (name : String) :
    WalkWorld ω π ρ → List (WalkCall ω π) → List PlanChange → Prop where
  | nil (world : WalkWorld ω π ρ) : Records w name world [] []
  | cons {world : WalkWorld ω π ρ} {c : WalkCall ω π} {calls : List (WalkCall ω π)}
      {changes later : List PlanChange}
      (hmakes : w.MakesChanges name { world with readings := world.readings + c.kind.asks } changes
        (w.callVisits name c world) ((w.call name c).run world).1.isFinished
        ((w.call name c).run world).2)
      (hlater : Records w name ((w.call name c).run world).2 calls later) :
      Records w name world (c :: calls) (changes ++ later)

theorem exists_records (world : WalkWorld ω π ρ) (calls : List (WalkCall ω π)) :
    ∃ changes, w.Records name world calls changes := by
  induction calls generalizing world with
  | nil => exact ⟨[], .nil world⟩
  | cons c calls ih =>
    obtain ⟨changes, hmakes⟩ := exists_makesChanges_call w name c world
    obtain ⟨later, hlater⟩ := ih ((w.call name c).run world).2
    exact ⟨changes ++ later, .cons hmakes hlater⟩

variable {w} {world : WalkWorld ω π ρ} {calls : List (WalkCall ω π)} {changes : List PlanChange}

/-- The changes of a call are made for its pages and for the end of the plan, and at which readings
of the clock they are made is known. -/
theorem MakesChanges.map_isFinish_time {visits : List Visit} {finished : Bool}
    {last : WalkWorld ω π ρ} (h : w.MakesChanges name world changes visits finished last) :
    changes.map (fun c => (c.isFinish, c.time)) =
      (List.replicate visits.length false ++ List.replicate finished.toNat true).zip
        ((List.range' world.readings (visits.length + finished.toNat)).map w.clock) := by
  have hlength : changes.length = visits.length + finished.toNat := by
    have h := congrArg List.length h.tells.map_isFinish
    simpa using h
  rw [← List.zip_map', h.tells.map_isFinish, h.times_eq, hlength]

theorem Records.of_cons {c : WalkCall ω π} (h : w.Records name world (c :: calls) changes) :
    ∃ first later, changes = first ++ later ∧
      w.MakesChanges name { world with readings := world.readings + c.kind.asks } first
        (w.callVisits name c world) ((w.call name c).run world).1.isFinished
        ((w.call name c).run world).2 ∧
      w.Records name ((w.call name c).run world).2 calls later := by
  cases h with
  | cons hmakes hlater => exact ⟨_, _, rfl, hmakes, hlater⟩

/-- A store that keeps what is written has the state after all changes. -/
theorem Records.get_eq (h : w.Records name world calls changes) (hstore : w.progress.Keeps name)
    (before : List PlanChange)
    (hget : w.progress.get name world.progress = .ok (PlanChange.stored? name before)) :
    w.progress.get name (w.afterCalls name world calls).progress =
      .ok (PlanChange.stored? name (before ++ changes)) := by
  induction h generalizing before with
  | nil => rwa [List.append_nil]
  | @cons world c calls changes later hmakes _ ih =>
    have hnext := ProgressStore.get_foldl_write hstore hget changes
    have hprogress : ((w.call name c).run world).2.progress =
        changes.foldl (w.progress.write name) world.progress := hmakes.progress_eq
    rw [← hprogress] at hnext
    rw [← List.append_assoc]
    exact ih _ hnext

/-- Whether a plan counts as fresh is told by its state. -/
theorem fst_run_isActiveOrDone (now : Time)
    (hget : w.progress.get name world.progress = .ok (PlanChange.stored? name changes)) :
    ((w.isActiveOrDone name now).run world).1 =
      w.isFresh (PlanChange.stateAfter name changes) now := by
  have hstate : (w.state name).run world = (.ok (PlanChange.stored? name changes), world) := by
    rw [← hget]
    rfl
  rw [isActiveOrDone, run_bind_eq hstate, PlanChange.stored?]
  by_cases hnil : changes = []
  · rw [if_pos hnil, hnil]
    rfl
  · rw [if_neg hnil]
    rfl

/-- After some calls for a plan without a state, it counts as fresh if the changes that the calls
made say so, unless these only say so by a page that was read after a completion.  Then a walk
starts though another one is under way. -/
theorem isActiveOrDone_afterCalls_iff (w : Walker π ρ) (name : String)
    (hstore : w.progress.Keeps name) (world : WalkWorld ω π ρ)
    (hnone : w.progress.get name world.progress = .ok none) (calls : List (WalkCall ω π)) :
    (∃ changes, w.Records name world calls changes) ∧
    ∀ changes, w.Records name world calls changes →
      let last := w.afterCalls name world calls
      (∀ now, let busy := ((w.isActiveOrDone name now).run last).1
        (busy = true ↔
          w.settings.Fresh changes now ∧ ¬ w.settings.WalkedAgain changes now) ∧
        ((busy = true ↔ w.settings.Fresh changes now) ↔ ¬ w.settings.WalkedAgain changes now)) ∧
      (w.settings.WalkedAgain changes (w.clock last.readings) → ∀ search token fuel,
        (w.runToCompletion search name token fuel).run last =
          (w.walkRemaining search name token fuel).run
            { last with readings := last.readings + 1 }) := by
  refine ⟨exists_records w world calls, fun changes hrecords => ?_⟩
  intro last
  have hget : w.progress.get name last.progress = .ok (PlanChange.stored? name changes) :=
    hrecords.get_eq hstore [] hnone
  have hbusy : ∀ now, ((w.isActiveOrDone name now).run last).1 = true ↔
      w.settings.Fresh changes now ∧ ¬ w.settings.WalkedAgain changes now := fun now => by
    rw [fst_run_isActiveOrDone now hget, isFresh_stateAfter_iff]
  refine ⟨fun now => ⟨hbusy now, ?_⟩, fun hagain search token fuel => ?_⟩
  · rw [hbusy]
    constructor
    · exact fun hlaw hagain => (hlaw.mpr hagain.fresh).2 hagain
    · exact fun hagain => ⟨And.left, fun hfresh => ⟨hfresh, hagain⟩⟩
  · let asked : WalkWorld ω π ρ := { last with readings := last.readings + 1 }
    have hget' : w.progress.get name asked.progress = .ok (PlanChange.stored? name changes) := hget
    have hasked : ((w.isActiveOrDone name (w.clock last.readings)).run asked).1 ≠ true := by
      rw [Ne, fst_run_isActiveOrDone _ hget', isFresh_stateAfter_iff]
      exact fun hfresh => hfresh.2 hagain
    rw [run_runToCompletion, if_neg hasked]

/-- A plan is completed, and a hundred days later its circle is searched again: ten seconds after
that it does not count as fresh. -/
theorem isActiveOrDone_afterCalls_iff_of_second_walk :
    let rows := ["10.0_10.0_1000.0_circle=1", "end of search plan"]
    let place : Feature := { geometry := { lng := 10.0, lat := 10.0 }, properties := {} }
    let search : CircleSearch Unit := fun _ _ =>
      (.ok { dataset := { features := [place] }, apiCalls := 1 }, ())
    let later : Int := 100 * secondsPerDay
    let w : Walker (Table (List String)) (Table PlanState) :=
      { plans := .inMemory, progress := .inMemory
        clock := fun n => .ofSeconds (if n < 2 then n else later) }
    let world : WalkWorld Unit (Table (List String)) (Table PlanState) :=
      { search := (), plans := [("p", rows)], progress := [] }
    let call (kind : WalkKind) : WalkCall Unit (Table (List String)) :=
      { kind, search, token := {}, state := (), plans := [("p", rows)] }
    let calls := [call (.remaining 5), call .step]
    let now := Time.ofSeconds (later + 10)
    w.progress.Keeps "p" ∧ w.progress.get "p" world.progress = .ok none ∧
      ((w.isActiveOrDone "p" now).run (w.afterCalls "p" world calls)).1 = false ∧
      ∃ changes, w.Records "p" world calls changes ∧ w.settings.Fresh changes now ∧
        w.settings.WalkedAgain changes now := by
  intro rows place search later w world call calls now
  have hkeeps : w.progress.Keeps "p" := ProgressStore.keeps_inMemory "p"
  obtain ⟨⟨changes, hrecords⟩, hall⟩ := isActiveOrDone_afterCalls_iff w "p" hkeeps world rfl calls
  have hagain : w.settings.WalkedAgain changes now := by
    obtain ⟨first, later', rfl, hfirst, hlater⟩ := hrecords.of_cons
    obtain ⟨second, later', rfl, hsecond, hnil⟩ := hlater.of_cons
    cases hnil
    have hfirst' := hfirst.map_isFinish_time.trans (by decide +kernel :
      _ = [(false, .ofSeconds 0), (true, .ofSeconds 1)])
    have hsecond' := hsecond.map_isFinish_time.trans (by decide +kernel :
      _ = [(false, .ofSeconds later)])
    obtain ⟨a, first, rfl, -, hrest⟩ := List.map_eq_cons_iff.mp hfirst'
    obtain ⟨b, first, rfl, hb, hrest⟩ := List.map_eq_cons_iff.mp hrest
    obtain rfl := List.map_eq_nil_iff.mp hrest
    obtain ⟨c, second, rfl, hc, hrest⟩ := List.map_eq_cons_iff.mp hsecond'
    obtain rfl := List.map_eq_nil_iff.mp hrest
    obtain ⟨hfinish, htime⟩ := Prod.mk.inj hb
    obtain ⟨hpage, htime'⟩ := Prod.mk.inj hc
    have hlast : PlanChange.lastFinish? ([a, b] ++ ([c] ++ [])) = some b := by
      rw [List.append_nil, PlanChange.lastFinish?_concat, hpage]
      exact (PlanChange.lastFinish?_concat [a] b).trans (by rw [if_pos hfinish])
    refine ⟨⟨b, hlast, ?_⟩, c, rfl, hpage, ?_⟩
    · rw [htime]
      decide +kernel
    · rw [htime']
      decide +kernel
  refine ⟨hkeeps, rfl, ?_, changes, hrecords, hagain.fresh, hagain⟩
  rw [← Bool.not_eq_true, ((hall changes hrecords).1 now).1]
  exact fun hfresh => hfresh.2 hagain

end Walker

end PlaceSearch
