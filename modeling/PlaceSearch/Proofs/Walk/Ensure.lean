import PlaceSearch.Proofs.Plan.Written
import PlaceSearch.Proofs.Walk.Cover

/-!
# Having a plan is settled by one call

A call that has a plan at the end has it for good: every later call has the same plan and changes
nothing, whatever circle it is given.  A call that fails leaves everything as it was, with two
exceptions.  A source may be changed by a write that it refuses; and rows are written before they
are read for the first time, so that rows which cannot be read are stored, and are found by every
later call.
-/

namespace PlaceSearch

variable {ω π ρ : Type}

/-- Rows that the source accepts for the plan are read back. -/
def PlanSource.KeepsAccepted (source : PlanSource π) (name : String) : Prop :=
  ∀ rows t t', (source.write name rows).run t = (.ok (), t') → source.read name t' = .ok rows

theorem PlanSource.Keeps.keepsAccepted {source : PlanSource π} {name : String}
    (h : source.Keeps name) : source.KeepsAccepted name := by
  intro rows t t' hwrite
  obtain ⟨t'', hwrite', hread⟩ := h rows t
  rw [hwrite] at hwrite'
  rwa [(Prod.mk.inj hwrite').2]

/-- A source that refuses every write has nothing to keep. -/
theorem PlanSource.keepsAccepted_refusing (reason name : String) :
    (refusing reason).KeepsAccepted name :=
  fun _ _ _ hwrite => nomatch (Prod.mk.inj hwrite).1

namespace Walker

variable {w : Walker π ρ} {name : String} {root : Circle} {world : WalkWorld ω π ρ} {k : Nat}

/-- The call has a plan, and later calls have the same one and change nothing; or it fails and
changes nothing. -/
def IsSettled (w : Walker π ρ) (name : String) (root : Circle) (world : WalkWorld ω π ρ) : Prop :=
  ∃ made world', (w.ensurePlan name root).run world = (made, world') ∧
    ((∃ plan, made = .ok plan ∧
      ∀ root', (w.ensurePlan name root').run world' = (.ok plan, world')) ∨
    ∃ err, made = .error err ∧ world' = world)

/-! ## One call -/

theorem run_ensurePlan_of_read {rows : List String} (h : w.plans.read name world.plans = .ok rows)
    (root : Circle) : (w.ensurePlan name root).run world = (Plan.ofRows name rows, world) := by
  obtain ⟨made, plans, hrun, hread, -⟩ := exists_run_ensurePlan w name root world
  obtain ⟨rfl, rfl⟩ := hread rows h
  exact hrun

theorem run_ensurePlan_of_written {rows : List String} {plans : π} (world : WalkWorld ω π ρ)
    (h : w.plans.read name plans = .ok rows) (root : Circle) :
    (w.ensurePlan name root).run { world with plans := plans } =
      (Plan.ofRows name rows, { world with plans := plans }) :=
  run_ensurePlan_of_read h root

theorem run_ensurePlan_of_readError {err : Error} (h : w.plans.read name world.plans = .error err)
    (herr : ∀ n, err ≠ .planNotFound n) (root : Circle) :
    (w.ensurePlan name root).run world = (.error err, world) := by
  have hread : (w.readPlan name).run world = (.error err, world) := congrArg (·, world) h
  rw [ensurePlan, run_bind_eq hread]
  cases err with
  | planNotFound n => exact absurd rfl (herr n)
  | _ => rfl

theorem run_ensurePlan_of_accepted {n : String} {plans : π}
    (h : w.plans.read name world.plans = .error (.planNotFound n))
    (hwrite : (w.plans.write name (generatePlan root w.settings.minRadius)).run world.plans =
      (.ok (), plans)) :
    (w.ensurePlan name root).run world =
      (Plan.ofRows name (generatePlan root w.settings.minRadius), { world with plans := plans }) := by
  obtain ⟨made, plans', hrun, -, hnone, -⟩ := exists_run_ensurePlan w name root world
  obtain ⟨rfl, rfl⟩ := hnone n h
  rw [hrun, hwrite]
  rfl

theorem run_ensurePlan_of_refused {n : String} {err : Error} {plans : π}
    (h : w.plans.read name world.plans = .error (.planNotFound n))
    (hwrite : (w.plans.write name (generatePlan root w.settings.minRadius)).run world.plans =
      (.error err, plans)) :
    (w.ensurePlan name root).run world = (.error err, { world with plans := plans }) := by
  obtain ⟨made, plans', hrun, -, hnone, -⟩ := exists_run_ensurePlan w name root world
  obtain ⟨rfl, rfl⟩ := hnone n h
  rw [hrun, hwrite]
  rfl

/-! ## Settled calls -/

/-- A call that does not find that the plan is missing is settled. -/
theorem isSettled_of_found (h : ∀ n, w.plans.read name world.plans ≠ .error (.planNotFound n)) :
    w.IsSettled name root world := by
  cases hread : w.plans.read name world.plans with
  | ok rows =>
    refine ⟨_, _, run_ensurePlan_of_read hread root, ?_⟩
    cases hplan : Plan.ofRows name rows with
    | ok plan =>
      refine .inl ⟨plan, rfl, fun root' => ?_⟩
      rw [run_ensurePlan_of_read hread, hplan]
    | error err => exact .inr ⟨err, rfl, rfl⟩
  | error err =>
    have herr : ∀ n, err ≠ .planNotFound n := fun n h' => h n (by rw [hread, h'])
    exact ⟨_, _, run_ensurePlan_of_readError hread herr root, .inr ⟨err, rfl, rfl⟩⟩

/-- A call whose write is refused is settled if the source is not changed by that. -/
theorem isSettled_iff_of_refused {n : String} {err : Error} {plans : π}
    (h : w.plans.read name world.plans = .error (.planNotFound n))
    (hwrite : (w.plans.write name (generatePlan root w.settings.minRadius)).run world.plans =
      (.error err, plans)) : w.IsSettled name root world ↔ plans = world.plans := by
  have hrun := run_ensurePlan_of_refused h hwrite
  constructor
  · rintro ⟨made, world', hrun', hsettled⟩
    rw [hrun] at hrun'
    obtain ⟨rfl, rfl⟩ := Prod.mk.inj hrun'
    rcases hsettled with ⟨plan, hplan, -⟩ | ⟨_, -, hworld⟩
    · cases hplan
    · exact congrArg WalkWorld.plans hworld
  · rintro rfl
    exact ⟨_, _, hrun, .inr ⟨err, rfl, rfl⟩⟩

/-- A call whose write is accepted is settled if the rows that it makes can be read. -/
theorem isSettled_iff_of_accepted {n : String} {plans : π} (hkeeps : w.plans.KeepsAccepted name)
    (h : w.plans.read name world.plans = .error (.planNotFound n))
    (hwrite : (w.plans.write name (generatePlan root w.settings.minRadius)).run world.plans =
      (.ok (), plans)) : w.IsSettled name root world ↔
        ∃ plan, Plan.ofRows name (generatePlan root w.settings.minRadius) = .ok plan := by
  have hrun := run_ensurePlan_of_accepted h hwrite
  have hread := hkeeps _ _ _ hwrite
  constructor
  · rintro ⟨made, world', hrun', hsettled⟩
    rw [hrun] at hrun'
    obtain ⟨rfl, rfl⟩ := Prod.mk.inj hrun'
    rcases hsettled with ⟨plan, hplan, -⟩ | ⟨_, -, hworld⟩
    · exact ⟨plan, hplan⟩
    · -- A source that has the rows is not the one that had none.
      rw [← congrArg WalkWorld.plans hworld, hread] at h
      cases h
  · rintro ⟨plan, hplan⟩
    refine ⟨_, _, hrun, .inl ⟨plan, hplan, fun root' => ?_⟩⟩
    rw [run_ensurePlan_of_written world hread, hplan]

/-- A call is settled exactly if it does not find that the plan is missing, or else its write is
refused and the source is not changed by that, or it is accepted and the radius of the circle is
finite and has no minus sign, and all centres of the plan are finite.  Another call whose write is
accepted fails with the row of a circle that is not readable.  The rows stay stored, so that all
later calls fail alike. -/
theorem isSettled_ensurePlan_iff (hkeeps : w.plans.KeepsAccepted name)
    (hends : (splits w.settings.minRadius root.radius).encard = k) :
    (w.IsSettled name root world ↔
      ∀ n, w.plans.read name world.plans = .error (.planNotFound n) →
        match (w.plans.write name (generatePlan root w.settings.minRadius)).run world.plans with
        | (.ok _, _) => Decimal.isUnsigned root.radius = true ∧
          ∀ x ∈ tree root k, x.1.center.isFinite = true
        | (.error _, plans) => plans = world.plans) ∧
    ∀ n plans, w.plans.read name world.plans = .error (.planNotFound n) →
      (w.plans.write name (generatePlan root w.settings.minRadius)).run world.plans =
        (.ok (), plans) →
      ¬w.IsSettled name root world →
        ∃ x ∈ tree root k, x.1.isReadable = false ∧
          (w.ensurePlan name root).run world =
            (.error (.plan (.noCircle (renderRow x.1 x.2))), { world with plans := plans }) ∧
          ∀ root', (w.ensurePlan name root').run { world with plans := plans } =
            (.error (.plan (.noCircle (renderRow x.1 x.2))), { world with plans := plans }) := by
  constructor
  · by_cases hmissing : ∃ n, w.plans.read name world.plans = .error (.planNotFound n)
    · obtain ⟨n, hmissing⟩ := hmissing
      rcases hwrite : (w.plans.write name (generatePlan root w.settings.minRadius)).run world.plans
        with ⟨_ | _, plans⟩
      · rw [isSettled_iff_of_refused hmissing hwrite]
        exact ⟨fun h _ _ => h, fun h => h n hmissing⟩
      · rw [isSettled_iff_of_accepted hkeeps hmissing hwrite,
          Plan.exists_ofRows_generatePlan_iff name hends, Plan.forall_isReadable_tree_iff]
        exact ⟨fun h _ _ => h, fun h => h n hmissing⟩
    · exact iff_of_true (isSettled_of_found (not_exists.mp hmissing))
        fun n h => absurd ⟨n, h⟩ hmissing
  · intro n plans hmissing hwrite hunsettled
    rw [isSettled_iff_of_accepted hkeeps hmissing hwrite] at hunsettled
    rcases Plan.ofRows_generatePlan name hends with ⟨plan, hplan, -⟩ | ⟨x, hx, hunreadable, hplan⟩
    · exact absurd ⟨plan, hplan⟩ hunsettled
    · refine ⟨x, hx, hunreadable, ?_, fun root' => ?_⟩
      · rw [run_ensurePlan_of_accepted hmissing hwrite, hplan]
      · rw [run_ensurePlan_of_written world (hkeeps _ _ _ hwrite), hplan]

/-- A call for an ordinary circle is settled; but a circle whose radius has a minus sign is stored
as a row that no call can read. -/
theorem isSettled_ensurePlan_iff_of_negative_radius :
    let w : Walker (Table (List String)) (Table PlanState) :=
      { plans := .inMemory, progress := .inMemory, clock := fun n => .ofSeconds n }
    let c : Circle := ⟨⟨59.33, 18.06⟩, 1500.0⟩
    let d : Circle := ⟨⟨59.33, 18.06⟩, -1500.0⟩
    let world : WalkWorld Unit (Table (List String)) (Table PlanState) :=
      { search := (), plans := [], progress := [] }
    w.plans.KeepsAccepted "p" ∧ (splits w.settings.minRadius c.radius).encard = (0 : Nat) ∧
      (splits w.settings.minRadius d.radius).encard = (0 : Nat) ∧
      w.IsSettled "p" c world ∧ ¬w.IsSettled "p" d world := by
  intro w c d world
  have hkeeps : w.plans.KeepsAccepted "p" := (PlanSource.keeps_inMemory "p").keepsAccepted
  have hc : (splits w.settings.minRadius c.radius).encard = (0 : Nat) := by
    refine encard_splits (fun h => absurd h (by decide)) fun h => ?_
    exact absurd (one_mem_splits_iff.mp h).1 (by decide +kernel)
  have hd : (splits w.settings.minRadius d.radius).encard = (0 : Nat) := by
    refine encard_splits (fun h => absurd h (by decide)) fun h => ?_
    exact absurd (one_mem_splits_iff.mp h).1 (by decide +kernel)
  refine ⟨hkeeps, hc, hd, ?_, fun hsettled => ?_⟩
  · refine (isSettled_ensurePlan_iff hkeeps hc).1.mpr fun n hmissing => ⟨by decide +kernel, ?_⟩
    intro x hx
    obtain rfl : x = (c, "1") := by simpa [tree] using hx
    decide +kernel
  · have hradius := ((isSettled_ensurePlan_iff hkeeps hd).1.mp hsettled "p" rfl).1
    exact absurd hradius (by decide +kernel)

end Walker

end PlaceSearch
