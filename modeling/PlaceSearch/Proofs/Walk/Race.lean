import Mathlib.Data.List.Infix
import PlaceSearch.Proofs.Walk.Calls

/-!
# Two walkers of one plan

A change to the state of a plan is made by reading the state from a store and writing the changed
one.  If two walkers of a plan work at the same time, another write can come between: the one that
comes later wins, and what was written since its reading is lost.

Two writers make some changes each, in turns of any order; a turn is a reading or a writing.  Beside
the store they are followed with the list of the changes that were not lost, which is written and
read in the same way.  This list tells the state of the plan, and it says how far two walkers can
undo what the other one did: a completed plan is open again after the write of a page that goes
back to a reading before the completion, and requests are counted if their change is not lost.  Two
walkers that are never both between a reading and its writing undo nothing.

## Main definitions

* `Register ρ σ` — something to be read, and written after a change.
* `ProgressStore.register store name`, `Register.history` — the state of a plan in a store, and the
  changes that are not lost.
* `Writer`, `Race` — who makes changes, and two of them at one store.
* `Register.run` — the race after some turns.
-/

namespace PlaceSearch

/-! ## Writers -/

/-- Something to be read, and to be written with a change of what was read. -/
structure Register (ρ σ : Type) where
  load : ρ → σ
  save : PlanChange → σ → ρ → ρ

/-- The state of a plan in a store. -/
def ProgressStore.register {ρ : Type} (store : ProgressStore ρ) (name : String) :
    Register ρ PlanState where
  load := store.load name
  save := fun c s r =>
    match store.set (c.apply s) r with
    | .ok r => r
    | .error _ => r

/-- The changes that were not lost, in order. -/
def Register.history : Register (List PlanChange) (List PlanChange) where
  load := id
  save := fun c before _ => before ++ [c]

/-- Who makes some changes one after the other: the changes to come, and what was read for the first
of them. -/
structure Writer (σ : Type) where
  todo : List PlanChange
  read : Option σ := none

/-- A writer has nothing to do, or its next turn is a reading or a writing. -/
theorem Writer.idle_or_unread_or_read {σ : Type} (a : Writer σ) :
    a.todo = [] ∨ (∃ c todo, a = ⟨c :: todo, none⟩) ∨ ∃ c todo s, a = ⟨c :: todo, some s⟩ := by
  rcases a with ⟨_ | ⟨c, todo⟩, _ | s⟩
  · exact .inl rfl
  · exact .inl rfl
  · exact .inr (.inl ⟨c, todo, rfl⟩)
  · exact .inr (.inr ⟨c, todo, s, rfl⟩)

/-- Two writers and what they write to. -/
structure Race (ρ σ : Type) where
  stored : ρ
  writers : Bool → Writer σ

/-- Two writers at the beginning. -/
def Race.start {ρ σ : Type} (stored : ρ) (todo : Bool → List PlanChange) : Race ρ σ where
  stored
  writers := fun x => { todo := todo x }

/-- The requests that were sent for the changes to come. -/
def Race.callsLeft {ρ σ : Type} (race : Race ρ σ) : Nat :=
  PlanChange.callsOf (race.writers false).todo + PlanChange.callsOf (race.writers true).todo

namespace Register

variable {ρ σ : Type} (reg : Register ρ σ)

/-- A turn of a writer: reading, or writing what was read with its next change. -/
def turn (race : Race ρ σ) (x : Bool) : Race ρ σ :=
  match race.writers x with
  | ⟨[], _⟩ => race
  | ⟨c :: todo, none⟩ =>
    { race with writers := Function.update race.writers x ⟨c :: todo, some (reg.load race.stored)⟩ }
  | ⟨c :: todo, some s⟩ =>
    { stored := reg.save c s race.stored
      writers := Function.update race.writers x ⟨todo, none⟩ }

/-- The race after some turns. -/
def run (race : Race ρ σ) (turns : List Bool) : Race ρ σ :=
  turns.foldl reg.turn race

variable {reg} {race : Race ρ σ} {x y : Bool} {turns : List Bool} {c : PlanChange}
  {todo : List PlanChange} {s : σ}

@[simp] theorem run_nil : reg.run race [] = race := rfl

theorem run_append (turns turns' : List Bool) :
    reg.run race (turns ++ turns') = reg.run (reg.run race turns) turns' :=
  List.foldl_append

theorem run_concat (turns : List Bool) (x : Bool) :
    reg.run race (turns ++ [x]) = reg.turn (reg.run race turns) x :=
  List.foldl_concat ..

theorem turn_of_idle (h : (race.writers x).todo = []) : reg.turn race x = race := by
  rw [turn]
  split <;> simp_all

theorem turn_of_unread (h : race.writers x = ⟨c :: todo, none⟩) :
    reg.turn race x = { race with
      writers := Function.update race.writers x ⟨c :: todo, some (reg.load race.stored)⟩ } := by
  rw [turn, h]

theorem turn_of_read (h : race.writers x = ⟨c :: todo, some s⟩) :
    reg.turn race x = {
      stored := reg.save c s race.stored
      writers := Function.update race.writers x ⟨todo, none⟩ } := by
  rw [turn, h]

/-- A turn leaves the other writer as it was. -/
theorem writers_turn_of_ne (h : y ≠ x) : (reg.turn race x).writers y = race.writers y := by
  rcases (race.writers x).idle_or_unread_or_read with hx | ⟨c, todo, hx⟩ | ⟨c, todo, s, hx⟩
  · rw [turn_of_idle hx]
  · rw [turn_of_unread hx]
    exact Function.update_of_ne h _ _
  · rw [turn_of_read hx]
    exact Function.update_of_ne h _ _

/-- What a writer has read was there at its last turn. -/
theorem exists_turn_of_read (h : (reg.run race turns).writers x = ⟨c :: todo, some s⟩)
    (hstart : ∀ y, (race.writers y).read = none) :
    ∃ before since, turns = before ++ x :: since ∧ x ∉ since ∧
      (reg.run race before).writers x = ⟨c :: todo, none⟩ ∧
      reg.load (reg.run race before).stored = s := by
  induction turns using List.reverseRecOn with
  | nil =>
    have hread := hstart x
    rw [run_nil] at h
    rw [h] at hread
    cases hread
  | append_singleton turns y ih =>
    rw [run_concat] at h
    by_cases hxy : x = y
    · subst hxy
      rcases ((reg.run race turns).writers x).idle_or_unread_or_read with
        hx | ⟨c', todo', hx⟩ | ⟨c', todo', s', hx⟩
      · rw [turn_of_idle hx] at h
        rw [h] at hx
        cases hx
      · rw [turn_of_unread hx] at h
        simp only [Function.update_self, Writer.mk.injEq, List.cons.injEq, Option.some.injEq] at h
        obtain ⟨⟨rfl, rfl⟩, hs⟩ := h
        exact ⟨turns, [], rfl, List.not_mem_nil, hx, hs⟩
      · rw [turn_of_read hx] at h
        simp at h
    · rw [writers_turn_of_ne hxy] at h
      obtain ⟨before, since, rfl, hsince, hbefore, hload⟩ := ih h
      refine ⟨before, since ++ [y], by simp, ?_, hbefore, hload⟩
      simpa [hsince] using hxy

/-- What a writer has read stays until its next turn. -/
theorem writers_run_of_not_mem (h : x ∉ turns) :
    (reg.run race turns).writers x = race.writers x := by
  induction turns using List.reverseRecOn with
  | nil => rfl
  | append_singleton turns y ih =>
    rw [List.mem_append, List.mem_singleton, not_or] at h
    rw [run_concat, writers_turn_of_ne h.2, ih h.1]

/-- A writing goes back to what was read at the last turn of its writer. -/
theorem run_of_unread (h : race.writers x = ⟨c :: todo, none⟩) (hturns : x ∉ turns) :
    (reg.run race (x :: turns ++ [x])).stored =
      reg.save c (reg.load race.stored) (reg.run race (x :: turns)).stored := by
  have hx : (reg.run race (x :: turns)).writers x = ⟨c :: todo, some (reg.load race.stored)⟩ := by
    rw [run, List.foldl_cons, ← run, writers_run_of_not_mem hturns, turn_of_unread h]
    exact Function.update_self ..
  rw [run_concat, turn_of_read hx]

end Register

/-! ## Walkers as writers -/

/-- A writer on its own makes its changes as a walker does. -/
theorem ProgressStore.run_replicate {ρ : Type} (store : ProgressStore ρ) (name : String)
    {changes : List PlanChange} {race : Race ρ PlanState} {x : Bool}
    (h : race.writers x = ⟨changes, none⟩) :
    ((store.register name).run race (List.replicate (2 * changes.length) x)).stored =
      changes.foldl (store.write name) race.stored := by
  induction changes generalizing race with
  | nil => rfl
  | cons c changes ih =>
    have hread : (store.register name).turn race x = _ := Register.turn_of_unread h
    have hwrite : (store.register name).turn ((store.register name).turn race x) x =
        { stored := store.write name race.stored c
          writers := Function.update race.writers x ⟨changes, none⟩ } := by
      rw [Register.turn_of_read (by rw [hread]; exact Function.update_self ..), hread]
      simp only [Function.update_idem]
      rfl
    rw [List.length_cons, Nat.mul_succ, List.replicate_succ, List.replicate_succ, Register.run,
      List.foldl_cons, List.foldl_cons, hwrite, ← Register.run, ih (Function.update_self ..),
      List.foldl_cons]

/-- A call to a walker does to the state of its plan what a writer does on its own, who makes a
change for each page that the call reads and one for the end of the plan if it reaches that. -/
theorem Walker.exists_run_call {ω π ρ : Type} (w : Walker π ρ) (name : String) (c : WalkCall ω π)
    (world : WalkWorld ω π ρ) (x : Bool) :
    let run := (w.call name c).run world
    ∃ changes, PlanChange.Tells changes (w.callVisits name c world) run.1.isFinished ∧
      run.2.progress = ((w.progress.register name).run (.start world.progress fun _ => changes)
        (List.replicate (2 * changes.length) x)).stored := by
  obtain ⟨changes, htells, hprogress⟩ := exists_changes_call w name c world
  exact ⟨changes, htells, by rw [w.progress.run_replicate name rfl]; exact hprogress⟩

/-! ## The changes that are not lost -/

/-- The writer that has read something else instead. -/
def Writer.map {σ τ : Type} (f : σ → τ) (a : Writer σ) : Writer τ :=
  ⟨a.todo, a.read.map f⟩

namespace ProgressStore

variable {ρ : Type} {store : ProgressStore ρ} {name : String} {race : Race ρ PlanState}
  {history : Race (List PlanChange) (List PlanChange)}

/-- A race for the state of a plan goes on as the one for the changes that are not lost, and these
changes tell the state. -/
structure Follows (store : ProgressStore ρ) (name : String) (race : Race ρ PlanState)
    (history : Race (List PlanChange) (List PlanChange)) : Prop where
  get_eq : store.get name race.stored = .ok (PlanChange.stored? name history.stored)
  writers_eq : ∀ x, race.writers x = (history.writers x).map (PlanChange.stateAfter name)

theorem Follows.load_eq (h : store.Follows name race history) :
    store.load name race.stored = PlanChange.stateAfter name history.stored :=
  load_of_stored? h.get_eq

theorem Follows.isComplete_iff (h : store.Follows name race history) :
    store.IsComplete name race.stored ↔ history.stored.any PlanChange.isFinish = true := by
  rw [IsComplete, h.get_eq, PlanChange.stored?, ← PlanChange.isComplete_stateAfter name]
  by_cases hnil : history.stored = []
  · simp [hnil, PlanChange.stateAfter, PlanState.isComplete]
  · simp [hnil]

theorem Follows.unread_iff (h : store.Follows name race history) {x : Bool} {c : PlanChange}
    {rest : List PlanChange} :
    race.writers x = ⟨c :: rest, none⟩ ↔ history.writers x = ⟨c :: rest, none⟩ := by
  rw [h.writers_eq]
  cases history.writers x
  simp [Writer.map]

theorem Follows.turn (h : store.Follows name race history) (hstore : store.Keeps name) (x : Bool) :
    store.Follows name ((store.register name).turn race x) (Register.history.turn history x) := by
  have hwriters : ∀ a y, Function.update race.writers x (a.map (PlanChange.stateAfter name)) y =
      (Function.update history.writers x a y).map (PlanChange.stateAfter name) := by
    intro a y
    by_cases hy : y = x
    · subst hy
      simp
    · simp [Function.update_of_ne hy, h.writers_eq]
  have hx := h.writers_eq x
  rcases (history.writers x).idle_or_unread_or_read with
    hwriter | ⟨c, todo, hwriter⟩ | ⟨c, todo, before, hwriter⟩
  · rw [Register.turn_of_idle hwriter, Register.turn_of_idle (by rw [hx]; exact hwriter)]
    exact h
  · rw [hwriter] at hx
    rw [Register.turn_of_unread hwriter, Register.turn_of_unread hx]
    refine ⟨h.get_eq, fun y => ?_⟩
    rw [← hwriters]
    simp only [register, h.load_eq]
    rfl
  · rw [hwriter] at hx
    rw [Register.turn_of_read hwriter, Register.turn_of_read hx]
    obtain ⟨r', hset, hget⟩ := hstore (c.apply (PlanChange.stateAfter name before)) race.stored
      (by simp)
    refine ⟨?_, fun y => ?_⟩
    · simp only [register, hset, hget, Register.history, PlanChange.stored?,
        PlanChange.stateAfter_concat]
      simp
    · rw [← hwriters]
      rfl

theorem Follows.run (h : store.Follows name race history) (hstore : store.Keeps name)
    (turns : List Bool) :
    store.Follows name ((store.register name).run race turns)
      (Register.history.run history turns) := by
  induction turns using List.reverseRecOn with
  | nil => exact h
  | append_singleton turns x ih =>
    rw [Register.run_concat, Register.run_concat]
    exact ih.turn hstore x

end ProgressStore

namespace Register

variable {race : Race (List PlanChange) (List PlanChange)} {total : Nat} {x : Bool}
  {turns : List Bool} {c : PlanChange} {rest : List PlanChange} {read : Option (List PlanChange)}

/-- A change that is made is no longer to come. -/
theorem callsLeft_update (h : race.writers x = ⟨c :: rest, read⟩) (stored : List PlanChange) :
    c.apiCalls + Race.callsLeft ⟨stored, Function.update race.writers x ⟨rest, none⟩⟩ =
      race.callsLeft := by
  cases x <;> simp [Race.callsLeft, h] <;> omega

theorem callsLeft_update_read (h : race.writers x = ⟨c :: rest, none⟩)
    (read : Option (List PlanChange)) :
    Race.callsLeft ⟨race.stored, Function.update race.writers x ⟨c :: rest, read⟩⟩ =
      race.callsLeft := by
  cases x <;> simp [Race.callsLeft, h]

/-- No more requests are counted, in what is stored and in what was read, than were sent. -/
structure CountsUpTo (total : Nat) (race : Race (List PlanChange) (List PlanChange)) : Prop where
  stored_le : PlanChange.callsOf race.stored + race.callsLeft ≤ total
  read_le : ∀ y changes, (race.writers y).read = some changes →
    PlanChange.callsOf changes + race.callsLeft ≤ total

theorem CountsUpTo.turn (h : CountsUpTo total race) (x : Bool) :
    CountsUpTo total (history.turn race x) := by
  obtain ⟨hstored, hread⟩ := h
  rcases (race.writers x).idle_or_unread_or_read with hx | ⟨c, rest, hx⟩ | ⟨c, rest, s, hx⟩
  · rw [turn_of_idle hx]
    exact ⟨hstored, hread⟩
  · rw [turn_of_unread hx]
    have hleft := callsLeft_update_read hx (some (history.load race.stored))
    refine ⟨by rw [hleft]; exact hstored, fun y changes hy => ?_⟩
    rw [hleft]
    by_cases hyx : y = x
    · subst hyx
      obtain rfl : race.stored = changes := by simpa [history] using hy
      exact hstored
    · exact hread y changes (by simpa [Function.update_of_ne hyx] using hy)
  · rw [turn_of_read hx]
    have hleft := callsLeft_update hx (history.save c s race.stored)
    have hs := hread x s (by rw [hx])
    refine ⟨?_, fun y changes hy => ?_⟩
    · simp only [history, PlanChange.callsOf_append, PlanChange.callsOf_cons,
        PlanChange.callsOf_nil] at hleft ⊢
      omega
    · by_cases hyx : y = x
      · subst hyx
        simp at hy
      · have := hread y changes (by simpa [Function.update_of_ne hyx] using hy)
        omega

theorem CountsUpTo.run (h : CountsUpTo total race) (turns : List Bool) :
    CountsUpTo total (history.run race turns) := by
  induction turns using List.reverseRecOn with
  | nil => exact h
  | append_singleton turns x ih =>
    rw [run_concat]
    exact ih.turn x

/-- What was read is what is stored. -/
def IsCurrent (race : Race (List PlanChange) (List PlanChange)) : Prop :=
  ∀ y changes, (race.writers y).read = some changes → changes = race.stored

/-- If what was read is what is stored, and not by both writers, nothing is lost in a turn. -/
theorem IsCurrent.turn (h : IsCurrent race) (hone : ∃ y, (race.writers y).read = none) (x : Bool) :
    let next := history.turn race x
    IsCurrent next ∧ race.stored <+: next.stored ∧
      PlanChange.callsOf next.stored + next.callsLeft =
        PlanChange.callsOf race.stored + race.callsLeft := by
  rcases (race.writers x).idle_or_unread_or_read with hx | ⟨c, rest, hx⟩ | ⟨c, rest, s, hx⟩
  · rw [turn_of_idle hx]
    exact ⟨h, List.prefix_rfl, rfl⟩
  · rw [turn_of_unread hx]
    refine ⟨fun y changes hy => ?_, List.prefix_rfl, by rw [callsLeft_update_read hx]⟩
    by_cases hyx : y = x
    · subst hyx
      simpa [history, eq_comm] using hy
    · exact h y changes (by simpa [Function.update_of_ne hyx] using hy)
  · rw [turn_of_read hx]
    obtain rfl : s = race.stored := h x s (by rw [hx])
    have hleft := callsLeft_update hx (history.save c race.stored race.stored)
    refine ⟨fun y changes hy => ?_, List.prefix_append _ _, ?_⟩
    · -- The other writer has read nothing, as this one has.
      obtain ⟨z, hz⟩ := hone
      by_cases hyx : y = x
      · subst hyx
        simp at hy
      · have hzx : z ≠ x := by
          rintro rfl
          rw [hx] at hz
          cases hz
        obtain rfl : y = z := (Bool.eq_not.mpr hyx).trans (Bool.eq_not.mpr hzx).symm
        simp [Function.update_of_ne hyx, hz] at hy
    · simp only [history, PlanChange.callsOf_append, PlanChange.callsOf_cons,
        PlanChange.callsOf_nil] at hleft ⊢
      omega

/-- The two writers are never both between a reading and the writing that follows it. -/
def TakesTurns {ρ σ : Type} (reg : Register ρ σ) (race : Race ρ σ) (turns : List Bool) : Prop :=
  ∀ before later, turns = before ++ later → ∃ x, ((reg.run race before).writers x).read = none

theorem TakesTurns.of_append {ρ σ : Type} {reg : Register ρ σ} {race : Race ρ σ}
    {turns turns' : List Bool} (h : reg.TakesTurns race (turns ++ turns')) :
    reg.TakesTurns race turns :=
  fun before later hsplit => h before (later ++ turns') (by rw [hsplit, List.append_assoc])

/-- If the writers are never both between a reading and a writing, nothing is lost. -/
theorem IsCurrent.run (h : IsCurrent race) (hturns : history.TakesTurns race turns) :
    let last := history.run race turns
    IsCurrent last ∧
      (∀ before later, turns = before ++ later → (history.run race before).stored <+: last.stored) ∧
      PlanChange.callsOf last.stored + last.callsLeft =
        PlanChange.callsOf race.stored + race.callsLeft := by
  induction turns using List.reverseRecOn with
  | nil =>
    refine ⟨h, fun before later hsplit => ?_, rfl⟩
    rw [(List.append_eq_nil_iff.mp hsplit.symm).1]
  | append_singleton turns x ih =>
    obtain ⟨hcurrent, hgrows, hcalls⟩ := ih hturns.of_append
    obtain ⟨hcurrent', hstep, hcalls'⟩ := hcurrent.turn (hturns turns [x] rfl) x
    rw [run_concat]
    refine ⟨hcurrent', fun before later hsplit => ?_, hcalls'.trans hcalls⟩
    rcases List.eq_nil_or_concat later with rfl | ⟨later, y, rfl⟩
    · rw [← run_concat, hsplit, List.append_nil]
    · rw [List.concat_eq_append, ← List.append_assoc] at hsplit
      exact (hgrows before later (List.append_inj' hsplit rfl).1).trans hstep

/-- A writing takes the completion of a plan back exactly if it is one of a page and goes back to a
reading before the completion. -/
theorem any_isFinish_run_concat_iff (hstart : ∀ y, (race.writers y).read = none)
    (hcomplete : (history.run race turns).stored.any PlanChange.isFinish = true) :
    (history.run race (turns ++ [x])).stored.any PlanChange.isFinish = false ↔
      ∃ before since c rest, turns = before ++ x :: since ∧ x ∉ since ∧
        (history.run race before).writers x = ⟨c :: rest, none⟩ ∧ c.isFinish = false ∧
        (history.run race before).stored.any PlanChange.isFinish = false := by
  constructor
  · intro hopen
    rw [run_concat] at hopen
    rcases ((history.run race turns).writers x).idle_or_unread_or_read with
      hx | ⟨c, rest, hx⟩ | ⟨c, rest, s, hx⟩
    · rw [turn_of_idle hx, hcomplete] at hopen
      cases hopen
    · rw [turn_of_unread hx] at hopen
      exact absurd hcomplete (by rw [hopen]; exact Bool.false_ne_true)
    · rw [turn_of_read hx] at hopen
      obtain ⟨before, since, hsplit, hsince, hbefore, hload⟩ := exists_turn_of_read hx hstart
      obtain ⟨hs, hc⟩ : s.any PlanChange.isFinish = false ∧ c.isFinish = false := by
        simpa only [history, List.any_append, List.any_cons, List.any_nil, Bool.or_false,
          Bool.or_eq_false_iff] using hopen
      rw [← hload] at hs
      exact ⟨before, since, c, rest, hsplit, hsince, hbefore, hc, hs⟩
  · rintro ⟨before, since, c, rest, rfl, hsince, hbefore, hc, hopen⟩
    rw [List.append_assoc, run_append, run_of_unread hbefore hsince]
    simp only [history, List.any_append, List.any_cons, List.any_nil, Bool.or_false, hc]
    exact hopen

end Register

/-! ## What two walkers leave of each other's changes -/

namespace ProgressStore

variable {ρ : Type} {store : ProgressStore ρ} {name : String} {r : ρ}

/-- A race for a plan without a state. -/
theorem follows_start (hnone : store.get name r = .ok none) (todo : Bool → List PlanChange) :
    store.Follows name (.start r todo) (.start [] todo) :=
  ⟨hnone, fun _ => rfl⟩

/-- Two walkers of a plan without a state, whose readings and writings come in any order.  What the
store has in the end are the changes that were not lost: each writing keeps those that its reading
found, and adds its own.  They count no more requests than the two have sent.  A writing opens a
completed plan exactly if it is one of a page and its reading came when the plan was not completed
yet.  If the two are never both between a reading and its writing, a completed plan stays so, and
in the end all requests of both are counted. -/
theorem get_run_start (hstore : store.Keeps name) (hnone : store.get name r = .ok none)
    (todo : Bool → List PlanChange) (turns : List Bool) :
    let after turns := (store.register name).run (.start r todo) turns
    let kept := (Register.history.run (.start [] todo) turns).stored
    let total := PlanChange.callsOf (todo false) + PlanChange.callsOf (todo true)
    store.get name (after turns).stored = .ok (PlanChange.stored? name kept) ∧
      (store.load name (after turns).stored).apiCalls = PlanChange.callsOf kept ∧
      PlanChange.callsOf kept ≤ total ∧
      (∀ x, store.IsComplete name (after turns).stored →
        (¬ store.IsComplete name (after (turns ++ [x])).stored ↔
          ∃ before since c rest, turns = before ++ x :: since ∧ x ∉ since ∧
            (after before).writers x = ⟨c :: rest, none⟩ ∧ c.isFinish = false ∧
            ¬ store.IsComplete name (after before).stored)) ∧
      ((store.register name).TakesTurns (.start r todo) turns →
        (∀ before later, turns = before ++ later → store.IsComplete name (after before).stored →
          store.IsComplete name (after turns).stored) ∧
        ((∀ x, ((after turns).writers x).todo = []) →
          (store.load name (after turns).stored).apiCalls = total)) := by
  intro after kept total
  have hfollows : ∀ turns, store.Follows name (after turns)
      (Register.history.run (.start [] todo) turns) :=
    (follows_start hnone todo).run hstore
  have hcounts : Register.CountsUpTo total (Register.history.run (.start [] todo) turns) := by
    refine Register.CountsUpTo.run ⟨?_, fun y changes hy => ?_⟩ turns
    · exact Nat.le_of_eq (Nat.zero_add _)
    · cases hy
  have hcalls : (store.load name (after turns).stored).apiCalls = PlanChange.callsOf kept := by
    rw [(hfollows turns).load_eq, PlanChange.apiCalls_stateAfter]
  refine ⟨(hfollows turns).get_eq, hcalls, (Nat.le_add_right ..).trans hcounts.stored_le, ?_, ?_⟩
  · intro x hcomplete
    rw [(hfollows turns).isComplete_iff] at hcomplete
    simp only [(hfollows _).isComplete_iff, Bool.not_eq_true, (hfollows _).unread_iff]
    exact Register.any_isFinish_run_concat_iff (fun _ => rfl) hcomplete
  · intro hturns
    have hone : Register.history.TakesTurns (.start [] todo) turns := fun before later hsplit => by
      obtain ⟨x, hx⟩ := hturns before later hsplit
      rw [(hfollows before).writers_eq] at hx
      exact ⟨x, Option.map_eq_none_iff.mp hx⟩
    have hcurrent : Register.IsCurrent (.start [] todo) := fun y changes hy => by cases hy
    obtain ⟨-, hgrows, htotal⟩ := hcurrent.run hone
    refine ⟨fun before later hsplit hcomplete => ?_, fun hdone => ?_⟩
    · rw [(hfollows _).isComplete_iff, List.any_eq_true] at hcomplete ⊢
      obtain ⟨c, hc, hfinish⟩ := hcomplete
      exact ⟨c, (hgrows before later hsplit).subset hc, hfinish⟩
    · have hleft : (Register.history.run (.start [] todo) turns).callsLeft = 0 := by
        have hnil : ∀ x, ((Register.history.run (.start [] todo) turns).writers x).todo = [] :=
          fun x => by
            have hx := hdone x
            rwa [(hfollows turns).writers_eq] at hx
        rw [Race.callsLeft, hnil, hnil]
        rfl
      rw [hcalls, ← Nat.add_zero (PlanChange.callsOf kept), ← hleft, htotal]
      exact Nat.zero_add _

/-- A page is written between the two changes of a walk over the only circle of a plan: the plan is
completed, and both requests are counted. -/
theorem get_run_start_of_turns_taken :
    let one : List PlanChange := [.page (.of none 1) 99 1 (.ofSeconds 0)]
    let other : List PlanChange :=
      [.page (.of none 1) 99 1 (.ofSeconds 0), .finish 2 (.ofSeconds 1)]
    let todo := fun x => if x then one else other
    let turns := [false, false, true, true, false, false]
    let last := (inMemory.register "p").run (.start [] todo) turns
    inMemory.Keeps "p" ∧ inMemory.get "p" [] = .ok none ∧
      (inMemory.register "p").TakesTurns (.start [] todo) turns ∧
      inMemory.IsComplete "p" last.stored ∧ (inMemory.load "p" last.stored).apiCalls = 2 := by
  intro one other todo turns last
  have hturns : (inMemory.register "p").TakesTurns (.start [] todo) turns := by
    have hone : ∀ before ∈ turns.inits, ∃ x,
        (((inMemory.register "p").run (.start [] todo) before).writers x).read = none := by
      decide +kernel
    exact fun before later hsplit => hone before ((List.mem_inits _ _).mpr ⟨later, hsplit.symm⟩)
  obtain ⟨-, -, -, -, htaken⟩ := get_run_start (keeps_inMemory "p") (r := []) rfl todo turns
  obtain ⟨hstays, hcounted⟩ := htaken hturns
  have hget : inMemory.get "p" last.stored = .ok (some (.completed "p" 2 2 (.ofSeconds 1))) := by
    decide +kernel
  exact ⟨keeps_inMemory "p", rfl, hturns, ⟨_, hget, rfl⟩, hcounted (by decide +kernel)⟩

/-- A step reads a page and a walk reads it too and completes the plan.  If all of the walk comes
between the reading and the writing of the step, the plan is open again in the end, and one of the
two requests is not counted. -/
theorem exists_lost_completion :
    let rows := ["10.0_10.0_1000.0_circle=1", "end of search plan"]
    let place : Feature := { geometry := { lng := 10.0, lat := 10.0 }, properties := {} }
    let page : CircleResult := { dataset := { features := [place] }, apiCalls := 1 }
    let search : CircleSearch Unit := fun _ s => (.ok page, s)
    let w : Walker (Table (List String)) (Table PlanState) :=
      { plans := .inMemory, progress := .inMemory, clock := fun n => .ofSeconds n }
    let world : WalkWorld Unit (Table (List String)) (Table PlanState) :=
      { search := (), plans := [("p", rows)], progress := [] }
    let call (kind : WalkKind) : WalkCall Unit (Table (List String)) :=
      { kind, search, token := {}, state := (), plans := [("p", rows)] }
    let one : List PlanChange := [.page (.of none 1) 99 1 (.ofSeconds 0)]
    let other : List PlanChange :=
      [.page (.of none 1) 99 1 (.ofSeconds 0), .finish 2 (.ofSeconds 1)]
    let after turns := (w.progress.register "p").run (.start [] fun x => if x then one else other)
      turns
    let walked := after [true, false, false, false, false]
    let last := after [true, false, false, false, false, true]
    ((w.call "p" (call .step)).run world).2.progress = one.foldl (w.progress.write "p") [] ∧
      ((w.call "p" (call (.remaining 5))).run world).2.progress =
        other.foldl (w.progress.write "p") [] ∧
      w.progress.get "p" [] = .ok none ∧
      (∀ x, (last.writers x).todo = []) ∧
      (w.progress.load "p" walked.stored).isComplete = true ∧
      (w.progress.load "p" last.stored).isComplete = false ∧
      (w.progress.load "p" last.stored).apiCalls = 1 ∧
      PlanChange.callsOf one + PlanChange.callsOf other = 2 := by
  decide +kernel

end ProgressStore

end PlaceSearch
