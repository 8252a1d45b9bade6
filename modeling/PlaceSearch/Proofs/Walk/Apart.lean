import PlaceSearch.Database
import PlaceSearch.Proofs.Walk.Calls
import PlaceSearch.Proofs.Walk.Cover

/-!
# Plans that are kept apart

A walk reads and writes what is stored for the plan that it walks over, and it finds that by the
name of the plan.  If what is written under this name cannot be found under another one, then the
rows and the state of any other plan stay as they were.
-/

namespace PlaceSearch

variable {ω π ρ : Type}

/-! ## Sources and stores -/

/-- Writing the rows of a plan leaves those of another one as they were. -/
def PlanSource.Separates (source : PlanSource π) (name other : String) : Prop :=
  ∀ rows t, (source.read other ((source.write name rows).run t).2).toOption =
    (source.read other t).toOption

theorem PlanSource.separates_inMemory {name other : String} (h : name ≠ other) :
    inMemory.Separates name other := by
  intro rows t
  change (readTable other (t.put name rows)).toOption = (readTable other t).toOption
  rw [readTable, readTable, Table.get?_put_of_ne h.symm]

theorem PlanSource.separates_fixed (name other : String) : fixed.Separates name other :=
  fun _ _ => rfl

theorem PlanSource.separates_refusing (reason name other : String) :
    (refusing reason).Separates name other :=
  fun _ _ => rfl

theorem PlanSource.eq_planFile_of_fileOf {name file : String} (h : fileOf name = .ok file) :
    file = planFile name := by
  rw [fileOf] at h
  split at h
  · exact (Except.ok.inj h).symm
  · cases h

/-- The rows of a plan are read from its file. -/
theorem PlanSource.toOption_read_directory (name : String) (files : Option (Table String)) :
    (directory.read name files).toOption = (fileOf name).toOption.bind fun file =>
      ((files.getD []).get? file).bind fun text => (rowsOfText text).toOption := by
  simp only [directory]
  cases files with
  | none => cases fileOf name <;> rfl
  | some files =>
    cases fileOf name with
    | error e => rfl
    | ok file =>
      dsimp only [bind, Except.bind, Option.getD_some, Except.toOption, Option.bind_some]
      cases files.get? file <;> rfl

/-- Plans whose files have different names are kept apart. -/
theorem PlanSource.separates_directory {name other : String} (h : planFile name ≠ planFile other) :
    directory.Separates name other := by
  intro rows files
  rw [toOption_read_directory, toOption_read_directory]
  cases hother : fileOf other with
  | error e => exact (Option.bind_none _).trans (Option.bind_none _).symm
  | ok file' =>
    obtain rfl := eq_planFile_of_fileOf hother
    simp only [directory]
    cases hname : fileOf name with
    | error e => rfl
    | ok file =>
      obtain rfl := eq_planFile_of_fileOf hname
      have hget := Table.get?_put_of_ne h.symm (Json.ofTexts rows).print (files.getD [])
      exact congrArg (Option.bind · fun text => (rowsOfText text).toOption) hget

/-- Writing the state of a plan leaves that of another one as it was, and what is found for the plan
afterwards is a state of it, or was found before. -/
structure ProgressStore.Separates (store : ProgressStore ρ) (name other : String) : Prop where
  get_eq : ∀ s r r', s.planName = name → store.set s r = .ok r' →
    store.get other r' = store.get other r
  named : ∀ s r r', s.planName = name → store.set s r = .ok r' →
    ∀ found, store.get name r' = .ok (some found) →
      found.planName = name ∨ store.get name r = .ok (some found)

namespace ProgressStore

variable {store : ProgressStore ρ} {name other : String} {r : ρ}

theorem separates_inMemory (h : name ≠ other) : inMemory.Separates name other where
  get_eq := by
    rintro s r _ rfl ⟨⟩
    exact congrArg Except.ok (Table.get?_put_of_ne h.symm s r)
  named := by
    rintro s r _ rfl ⟨⟩ found hfound
    obtain rfl : s = found := by simpa [inMemory] using hfound
    exact .inl rfl

theorem separates_broken (reason name other : String) :
    (broken reason : ProgressStore ρ).Separates name other where
  get_eq := by rintro _ _ _ _ ⟨⟩
  named := by rintro _ _ _ _ ⟨⟩

theorem separates_database (h : name ≠ other) :
    Database.progressStore.Separates name other where
  get_eq := by
    rintro s r _ rfl ⟨⟩
    have hget : (r.put s.planName (.ofState s)).get? other = r.get? other :=
      Table.get?_put_of_ne h.symm _ r
    exact congrArg (Except.ok ∘ Option.map ProgressRow.toState) hget
  named := by
    rintro s r _ rfl ⟨⟩ found hfound
    obtain ⟨row, hrow, rfl⟩ := Option.map_eq_some_iff.mp (Except.ok.inj hfound)
    have hget : (r.put s.planName (.ofState s)).get? s.planName = some (ProgressRow.ofState s) :=
      Table.get?_put_self ..
    rw [hget] at hrow
    exact .inl (congrArg ProgressRow.planName (Option.some.inj hrow)).symm

/-- The state that is found for a plan is one of this plan. -/
def IsNamed (store : ProgressStore ρ) (name : String) (r : ρ) : Prop :=
  ∀ s, store.get name r = .ok (some s) → s.planName = name

theorem IsNamed.planName_load (h : store.IsNamed name r) : (store.load name r).planName = name := by
  rw [load]
  split
  · exact h _ ‹_›
  · rfl

/-- A change to the state of a plan leaves the state of another one as it was. -/
theorem Separates.write (h : store.Separates name other) (hnamed : store.IsNamed name r)
    (c : PlanChange) :
    store.get other (store.write name r c) = store.get other r ∧
      store.IsNamed name (store.write name r c) := by
  have hname : (c.apply (store.load name r)).planName = name := by
    rw [PlanChange.planName_apply, hnamed.planName_load]
  rw [ProgressStore.write, update]
  cases hset : store.set (c.apply (store.load name r)) r with
  | error e => exact ⟨rfl, hnamed⟩
  | ok r' =>
    refine ⟨h.get_eq _ r r' hname hset, fun found hfound => ?_⟩
    rcases h.named _ r r' hname hset found hfound with hfound | hfound
    · exact hfound
    · exact hnamed found hfound

theorem Separates.foldl_write (h : store.Separates name other) (hnamed : store.IsNamed name r)
    (changes : List PlanChange) :
    store.get other (changes.foldl (store.write name) r) = store.get other r ∧
      store.IsNamed name (changes.foldl (store.write name) r) := by
  induction changes generalizing r with
  | nil => exact ⟨rfl, hnamed⟩
  | cons c changes ih =>
    obtain ⟨hget, hnamed'⟩ := h.write hnamed c
    obtain ⟨hget', hnamed''⟩ := ih hnamed'
    exact ⟨hget'.trans hget, hnamed''⟩

end ProgressStore

/-! ## Steps -/

namespace Walker

variable {w : Walker π ρ} {search : CircleSearch ω} {plan : Plan} {token : ResumeToken}
  {apiCalls budget : Nat} {world world' world'' last : WalkWorld ω π ρ} {visits : List Visit}
  {result : Except Error WalkStep} {name other : String}

/-- A plan has the same rows and the same state in two worlds. -/
structure LeavesPlan (w : Walker π ρ) (other : String) (world world' : WalkWorld ω π ρ) : Prop where
  rows_eq : (w.plans.read other world'.plans).toOption = (w.plans.read other world.plans).toOption
  state_eq : w.progress.get other world'.progress = w.progress.get other world.progress

theorem LeavesPlan.refl (world : WalkWorld ω π ρ) : w.LeavesPlan other world world :=
  ⟨rfl, rfl⟩

theorem LeavesPlan.trans (h : w.LeavesPlan other world world')
    (h' : w.LeavesPlan other world' world'') : w.LeavesPlan other world world'' :=
  ⟨h'.rows_eq.trans h.rows_eq, h'.state_eq.trans h.state_eq⟩

/-- Having a plan leaves another one as it was. -/
theorem leavesPlan_ensurePlan (hplans : w.plans.Separates name other) (root : Circle)
    (world : WalkWorld ω π ρ) :
    let world' := ((w.ensurePlan name root).run world).2
    w.LeavesPlan other world world' ∧ world'.progress = world.progress := by
  obtain ⟨made, plans, hrun, -, hwrite, hsame⟩ := exists_run_ensurePlan w name root world
  rw [hrun]
  refine ⟨⟨?_, rfl⟩, rfl⟩
  by_cases hnone : ∃ n, w.plans.read name world.plans = .error (.planNotFound n)
  · obtain ⟨n, hnone⟩ := hnone
    rw [(hwrite n hnone).2]
    exact hplans _ _
  · rw [hsame (not_exists.mp hnone)]

theorem read_plansAfter (hplans : w.plans.Separates plan.name other) (v : Visit) (plans : π) :
    (w.plans.read other (w.plansAfter plan v plans)).toOption =
      (w.plans.read other plans).toOption := by
  rw [plansAfter]
  split
  · exact hplans _ _
  · rfl

theorem StepRun.read_plans
    (h : w.StepRun search plan token apiCalls budget world visits result last)
    (hplans : w.plans.Separates plan.name other) :
    (w.plans.read other last.plans).toOption = (w.plans.read other world.plans).toOption := by
  induction h with
  | tired => rfl
  | finished => rfl
  | failed => rfl
  | accepted => exact read_plansAfter hplans _ _
  | passed _ _ _ ih =>
    rw [name_planAfter] at ih
    exact (ih hplans).trans (read_plansAfter hplans _ _)

/-- A step over a plan leaves another one as it was. -/
theorem leavesPlan_step (hplans : w.plans.Separates name other)
    (hprogress : w.progress.Separates name other) (search : CircleSearch ω) (token : ResumeToken)
    (hnamed : w.progress.IsNamed name world.progress) :
    let last := ((w.step search name token).run world).2
    w.LeavesPlan other world last ∧ w.progress.IsNamed name last.progress := by
  obtain ⟨changes, hchanges⟩ := exists_changes_step w search name token world
  obtain ⟨hget, hnamed'⟩ := hprogress.foldl_write hnamed changes
  rw [← hchanges.progress_eq] at hget hnamed'
  refine ⟨⟨?_, hget⟩, hnamed'⟩
  cases hplan : w.planOf name world with
  | error e => rw [run_step_of_error hplan]
  | ok plan =>
    have hrun : w.StepRun search plan token 0 w.settings.maxEmptySteps world _ _ _ :=
      stepRun hplan token
    rw [← name_of_planOf hplan] at hplans
    exact hrun.read_plans hplans

end Walker

end PlaceSearch
