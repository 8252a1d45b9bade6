import PlaceSearch.Plan.Source
import PlaceSearch.Walk.Progress

/-!
# What is kept of a walk

A walk writes to a source of plans and to a store of progress.  Both may fail: an honest source of
plans reads back what was written unless the write changes nothing, and an honest store of progress
makes up no completed state.  Of a store that may fail it can still be asked that no plan is
completed in it that was never written as completed.
-/

namespace PlaceSearch

/-- Rows that are written for a plan are read back. -/
def PlanSource.Keeps {π : Type} (source : PlanSource π) (name : String) : Prop :=
  ∀ rows t, ∃ t', (source.write name rows).run t = (.ok (), t') ∧ source.read name t' = .ok rows

theorem PlanSource.keeps_inMemory (name : String) : PlanSource.inMemory.Keeps name :=
  fun rows t => ⟨t.put name rows, rfl, by simp [inMemory, readTable]⟩

/-- Rows that are written for a plan are read back, or the rows that can be read stay as they
were. -/
def PlanSource.IsHonest {π : Type} (source : PlanSource π) (name : String) : Prop :=
  ∀ rows t, ∃ written t', (source.write name rows).run t = (written, t') ∧
    (written = .ok () ∧ source.read name t' = .ok rows ∨
      ∀ kept, source.read name t' = .ok kept ↔ source.read name t = .ok kept)

theorem PlanSource.Keeps.isHonest {π : Type} {source : PlanSource π} {name : String}
    (h : source.Keeps name) : source.IsHonest name := by
  intro rows t
  obtain ⟨t', hwrite, hread⟩ := h rows t
  exact ⟨_, t', hwrite, .inl ⟨rfl, hread⟩⟩

theorem PlanSource.isHonest_fixed (name : String) : PlanSource.fixed.IsHonest name :=
  fun _ t => ⟨_, t, rfl, .inr fun _ => Iff.rfl⟩

theorem PlanSource.isHonest_refusing (reason name : String) :
    (PlanSource.refusing reason).IsHonest name :=
  fun _ t => ⟨_, t, rfl, .inr fun _ => Iff.rfl⟩

/-! ## States of plans -/

namespace PlanState

@[simp] theorem isComplete_afterPage (s : PlanState) (next : ResumeToken) (progress apiCalls : Nat)
    (now : Time) : (s.afterPage next progress apiCalls now).isComplete = s.isComplete := by
  simp only [isComplete, afterPage, decide_eq_true_eq, decide_eq_decide, ge_iff_le]
  split <;> omega

end PlanState

namespace ProgressStore

variable {ρ : Type} {store : ProgressStore ρ} {name : String} {r : ρ}

/-- A state that is written for a plan is read back. -/
def Keeps (store : ProgressStore ρ) (name : String) : Prop :=
  ∀ s r, s.planName = name → ∃ r', store.set s r = .ok r' ∧ store.get name r' = .ok (some s)

theorem keeps_inMemory (name : String) : inMemory.Keeps name := by
  rintro s r rfl
  exact ⟨r.put s.planName s, rfl, by simp [inMemory]⟩

/-- The plan is completed as far as the store tells. -/
def IsComplete (store : ProgressStore ρ) (name : String) (r : ρ) : Prop :=
  ∃ s, store.get name r = .ok (some s) ∧ s.isComplete = true

/-- After a write the plan is completed only if it is by what was written, or was before. -/
def IsHonest (store : ProgressStore ρ) (name : String) : Prop :=
  ∀ s r r', store.set s r = .ok r' → store.IsComplete name r' →
    s.isComplete = true ∨ store.IsComplete name r

theorem isHonest_inMemory (name : String) : inMemory.IsHonest name := by
  rintro s r _ ⟨⟩ ⟨s', hget, hcomplete⟩
  by_cases h : name = s.planName
  · rw [h] at hget
    obtain rfl : s = s' := by simpa [inMemory] using hget
    exact .inl hcomplete
  · refine .inr ⟨s', ?_, hcomplete⟩
    simpa [inMemory, Table.get?_put_of_ne h] using hget

theorem isComplete_of_load (h : (store.load name r).isComplete = true) :
    store.IsComplete name r := by
  rw [load] at h
  split at h
  · exact ⟨_, ‹_›, h⟩
  · simp [PlanState.isComplete] at h

/-- A change completes a plan only if it makes its state a completed one. -/
theorem isComplete_of_update (hstore : store.IsHonest name) {change : PlanState → PlanState}
    (h : store.IsComplete name (store.update name change r)) :
    (change (store.load name r)).isComplete = true ∨ store.IsComplete name r := by
  rw [update] at h
  split at h
  · exact hstore _ _ _ ‹_› h
  · exact .inr h

/-- A page completes no plan. -/
theorem isComplete_of_update_afterPage (hstore : store.IsHonest name) {next : ResumeToken}
    {progress apiCalls : Nat} {now : Time} (h : store.IsComplete name
      (store.update name (·.afterPage next progress apiCalls now) r)) :
    store.IsComplete name r := by
  rcases isComplete_of_update hstore h with h | h
  · rw [PlanState.isComplete_afterPage] at h
    exact isComplete_of_load h
  · exact h

/-- The state of a plan after a change that is kept. -/
theorem get_update (hstore : store.Keeps name) (change : PlanState → PlanState)
    (hname : (change (store.load name r)).planName = name) :
    store.get name (store.update name change r) = .ok (some (change (store.load name r))) := by
  obtain ⟨r', hset, hget⟩ := hstore _ r hname
  rw [update, hset]
  exact hget

theorem load_update (hstore : store.Keeps name) (change : PlanState → PlanState)
    (hname : (change (store.load name r)).planName = name) :
    store.load name (store.update name change r) = change (store.load name r) := by
  rw [load, get_update hstore change hname]

end ProgressStore

end PlaceSearch
