import PlaceSearch.Proofs.Walk.Apart

/-!
# Two stores of progress

Plan states are kept in memory as they are, or in a database as rows of 64-bit integers with a sign.
Both stores are run on the same calls.  Row by row the tables of the database are what the database
makes of the states in memory, so that it answers with the states that the store in memory answers
with, less what a row cannot hold: a percentage above 100 is read back as 100, and a counter that
needs all 64 bits as zero.

## Main definitions

* `ProgressCall` — a call of a store of plan states.
* `ProgressStore.after`, `ProgressStore.answers` — a store after some calls, and what they read.
* `ProgressCall.lastSet name calls` — the state that was set last for a plan.
* `PlanState.restored s` — what the database makes of a state.
* `PlanState.IsRepresentable s`, `PlanState.FitsWords s` — a row can hold the state; the state is
  one of a byte and of two words of 64 bits.
-/

namespace PlaceSearch

/-! ## Words -/

theorem toNat_signedWord_of_lt {n : Nat} (h : n < twoPow 63) : (signedWord n).toNat = n := by
  simp only [signedWord, twoPow, Nat.pow_eq, Nat.reducePow, Int.bmod_def] at *
  omega

/-- A word that needs its highest bit is negative as a number with a sign. -/
theorem toNat_signedWord_of_le {n : Nat} (h : twoPow 63 ≤ n) (hfits : n < twoPow 64) :
    (signedWord n).toNat = 0 := by
  simp only [signedWord, twoPow, Nat.pow_eq, Nat.reducePow, Int.bmod_def] at *
  omega

theorem toNat_signedWord_lt (n : Nat) : (signedWord n).toNat < twoPow 63 := by
  simp only [signedWord, twoPow, Nat.pow_eq, Nat.reducePow, Int.bmod_def]
  omega

theorem toNat_signedWord_eq_iff {n : Nat} : (signedWord n).toNat = n ↔ n < twoPow 63 :=
  ⟨fun h => h ▸ toNat_signedWord_lt n, toNat_signedWord_of_lt⟩

/-! ## States in rows -/

namespace PlanState

/-- What is read back of a state that is kept as a row. -/
def restored (s : PlanState) : PlanState :=
  (ProgressRow.ofState s).toState

theorem progress_restored (s : PlanState) :
    s.restored.progress = min (signedWord s.progress).toNat 100 := by
  simp only [restored, ProgressRow.toState, ProgressRow.ofState]

theorem currentIndex_restored (s : PlanState) :
    s.restored.currentIndex = (signedWord s.currentIndex).toNat := by
  simp only [restored, ProgressRow.toState, ProgressRow.ofState]

theorem apiCalls_restored (s : PlanState) :
    s.restored.apiCalls = (signedWord s.apiCalls).toNat := by
  simp only [restored, ProgressRow.toState, ProgressRow.ofState]

/-- A row can hold the state. -/
structure IsRepresentable (s : PlanState) : Prop where
  progress : s.progress ≤ 100
  currentIndex : s.currentIndex < twoPow 63
  apiCalls : s.apiCalls < twoPow 63

/-- The percentage is a byte, and the counters are words of 64 bits. -/
structure FitsWords (s : PlanState) : Prop where
  progress : s.progress < twoPow 8
  currentIndex : s.currentIndex < twoPow 64
  apiCalls : s.apiCalls < twoPow 64

/-- A state is read back as it was exactly if a row can hold it. -/
theorem restored_eq_self_iff {s : PlanState} : s.restored = s ↔ s.IsRepresentable := by
  have hprogress : min (signedWord s.progress).toNat 100 = s.progress ↔ s.progress ≤ 100 := by
    refine ⟨fun h => h ▸ Nat.min_le_right _ _, fun h => ?_⟩
    have hlt : s.progress < twoPow 63 := h.trans_lt (by decide)
    rw [toNat_signedWord_of_lt hlt, Nat.min_eq_left h]
  constructor
  · intro h
    refine ⟨hprogress.mp ?_, toNat_signedWord_eq_iff.mp ?_, toNat_signedWord_eq_iff.mp ?_⟩
    · rw [← progress_restored, h]
    · rw [← currentIndex_restored, h]
    · rw [← apiCalls_restored, h]
  · rintro ⟨h, hindex, hcalls⟩
    rw [restored, ProgressRow.toState, ProgressRow.ofState]
    simp only [hprogress.mpr h, toNat_signedWord_of_lt hindex, toNat_signedWord_of_lt hcalls]

/-- A larger percentage is read back as 100, and a larger counter as zero. -/
theorem restored_of_fitsWords {s : PlanState} (h : s.FitsWords) :
    s.restored = { s with
      progress := min s.progress 100
      currentIndex := if s.currentIndex < twoPow 63 then s.currentIndex else 0
      apiCalls := if s.apiCalls < twoPow 63 then s.apiCalls else 0 } := by
  have hcounter : ∀ n, n < twoPow 64 → (signedWord n).toNat = if n < twoPow 63 then n else 0 := by
    intro n hn
    split
    · exact toNat_signedWord_of_lt ‹_›
    · exact toNat_signedWord_of_le (Nat.not_lt.mp ‹_›) hn
  have hprogress : s.progress < twoPow 63 := h.progress.trans (by decide)
  rw [restored, ProgressRow.toState, ProgressRow.ofState]
  simp only [toNat_signedWord_of_lt hprogress, hcounter _ h.currentIndex, hcounter _ h.apiCalls]

end PlanState

/-! ## Calls of a store -/

/-- A call of a store of plan states. -/
inductive ProgressCall where
  | get (name : String)
  | set (state : PlanState)

/-- The state that was set last for a plan. -/
def ProgressCall.lastSet (name : String) (calls : List ProgressCall) : Option PlanState :=
  calls.reverse.findSome? fun
    | .get _ => none
    | .set s => if s.planName = name then some s else none

namespace ProgressStore

variable {ρ : Type}

/-- The store after a call. -/
def afterCall (store : ProgressStore ρ) (r : ρ) : ProgressCall → ρ
  | .get _ => r
  | .set s =>
    match store.set s r with
    | .ok r' => r'
    | .error _ => r

/-- The store after some calls. -/
def after (store : ProgressStore ρ) (r : ρ) (calls : List ProgressCall) : ρ :=
  calls.foldl store.afterCall r

/-- What some calls read, one answer for every `get`. -/
def answers (store : ProgressStore ρ) :
    ρ → List ProgressCall → List (Except Error (Option PlanState))
  | _, [] => []
  | r, .get name :: calls => store.get name r :: answers store r calls
  | r, .set s :: calls => answers store (store.afterCall r (.set s)) calls

/-- The rows that the database keeps for the states of a table. -/
def rowsOf (t : Table PlanState) : Table ProgressRow :=
  t.map (Prod.map id ProgressRow.ofState)

theorem get?_rowsOf (name : String) (t : Table PlanState) :
    (rowsOf t).get? name = (t.get? name).map ProgressRow.ofState := by
  induction t with
  | nil => rfl
  | cons p t ih =>
    rw [rowsOf, List.map_cons, ← rowsOf, Table.get?_cons, Table.get?_cons, ih]
    by_cases h : name = p.1
    · simp [h]
    · simp [h]

theorem put_rowsOf (s : PlanState) (t : Table PlanState) :
    (rowsOf t).put s.planName (.ofState s) = rowsOf (t.put s.planName s) := by
  induction t with
  | nil => rfl
  | cons p t ih =>
    obtain ⟨name, state⟩ := p
    rw [rowsOf, List.map_cons, ← rowsOf, Prod.map_apply, Table.put, Table.put, ih]
    by_cases h : name = s.planName
    · simp [h, rowsOf]
    · simp [h, rowsOf]

/-- One call keeps the rows in step with the states. -/
theorem afterCall_database (t : Table PlanState) (call : ProgressCall) :
    Database.progressStore.afterCall (rowsOf t) call = rowsOf (inMemory.afterCall t call) := by
  cases call with
  | get name => rfl
  | set s => exact put_rowsOf s t

theorem get_database (name : String) (t : Table PlanState) :
    Database.progressStore.get name (rowsOf t) =
      (inMemory.get name t).map (Option.map PlanState.restored) := by
  change Except.ok (((rowsOf t).get? name).map ProgressRow.toState) = _
  rw [get?_rowsOf, Option.map_map]
  rfl

/-- The database answers with what it makes of the states that are kept in memory.  The induction is
on the calls, and keeps the rows in step with the states. -/
theorem answers_database (t : Table PlanState) (calls : List ProgressCall) :
    Database.progressStore.answers (rowsOf t) calls =
      (inMemory.answers t calls).map (Except.map (Option.map PlanState.restored)) := by
  induction calls generalizing t with
  | nil => rfl
  | cons call calls ih =>
    cases call with
    | get name => rw [answers, answers, List.map_cons, get_database, ih]
    | set s => rw [answers, answers, afterCall_database, ih]

/-- In memory, the state that was set last for a plan is read back. -/
theorem get_after_inMemory (name : String) (calls : List ProgressCall) :
    inMemory.get name (inMemory.after [] calls) = .ok (ProgressCall.lastSet name calls) := by
  induction calls using List.reverseRecOn with
  | nil => rfl
  | append_singleton calls call ih =>
    rw [after, List.foldl_concat, ← after, ProgressCall.lastSet, List.reverse_append]
    cases call with
    | get name' => exact ih
    | set s =>
      by_cases h : s.planName = name
      · subst h
        simp [afterCall, inMemory]
      · have hget := (separates_inMemory h).get_eq s (inMemory.after [] calls) _ rfl rfl
        refine hget.trans (ih.trans ?_)
        simp [ProgressCall.lastSet, h]

theorem map_eq_self_iff {α : Type} {f : α → α} {answers : List (Except Error (Option α))} :
    answers.map (Except.map (Option.map f)) = answers ↔
      ∀ x, .ok (some x) ∈ answers → f x = x := by
  conv_lhs => rhs; rw [← List.map_id answers]
  rw [List.map_inj_left]
  constructor
  · intro h x hx
    exact Option.some.inj (Except.ok.inj (h _ hx))
  · rintro h (e | _ | x) hx
    · rfl
    · rfl
    · exact congrArg (Except.ok ∘ some) (h x hx)

/-- Run on the same calls from the start, the two stores answer every `get` alike exactly if a row
can hold each state that is read back from memory, which is always the state that was set last for
the plan.  In any case the database answers with what it makes of these states: the percentage at
most 100, and zero for a counter that needs all 64 bits.  Setting the state of one plan changes in
neither store what is read for another one. -/
theorem answers_database_eq_iff (calls : List ProgressCall) :
    (Database.progressStore.answers [] calls = inMemory.answers [] calls ↔
      ∀ s, .ok (some s) ∈ inMemory.answers [] calls → s.IsRepresentable) ∧
    Database.progressStore.answers [] calls =
      (inMemory.answers [] calls).map (Except.map (Option.map PlanState.restored)) ∧
    (∀ name, inMemory.get name (inMemory.after [] calls) =
      .ok (ProgressCall.lastSet name calls)) ∧
    (∀ s : PlanState, s.FitsWords → s.restored = { s with
      progress := min s.progress 100
      currentIndex := if s.currentIndex < twoPow 63 then s.currentIndex else 0
      apiCalls := if s.apiCalls < twoPow 63 then s.apiCalls else 0 }) ∧
    ∀ (s : PlanState) name, name ≠ s.planName →
      (∀ t, inMemory.get name (inMemory.afterCall t (.set s)) = inMemory.get name t) ∧
      ∀ t, Database.progressStore.get name (Database.progressStore.afterCall t (.set s)) =
        Database.progressStore.get name t := by
  have hanswers := answers_database [] calls
  refine ⟨?_, hanswers, fun name => get_after_inMemory name calls,
    fun s => PlanState.restored_of_fitsWords, fun s name hname => ⟨fun t => ?_, fun t => ?_⟩⟩
  · rw [show rowsOf [] = [] from rfl] at hanswers
    rw [hanswers, map_eq_self_iff]
    exact forall₂_congr fun s _ => PlanState.restored_eq_self_iff
  · exact (separates_inMemory hname.symm).get_eq s t _ rfl rfl
  · exact (separates_database hname.symm).get_eq s t _ rfl rfl

/-- A state of more than 100 per cent, a row beyond what a signed word holds and a number of calls
at its edge: the database gives back 100, zero and the number of calls, and the other plan as it
is. -/
theorem answers_database_eq_iff_of_two_plans :
    let p : PlanState :=
      { planName := "p", currentIndex := twoPow 63, progress := 255, apiCalls := twoPow 63 - 1 }
    let q : PlanState := { planName := "q", currentIndex := 3, progress := 100 }
    let calls : List ProgressCall := [.set p, .set q, .get "p", .get "q", .get "r"]
    p.FitsWords ∧ "q" ≠ p.planName ∧
      inMemory.answers [] calls = [.ok (some p), .ok (some q), .ok none] ∧
      Database.progressStore.answers [] calls =
        [.ok (some { p with currentIndex := 0, progress := 100 }), .ok (some q), .ok none] ∧
      Database.progressStore.answers [] calls ≠ inMemory.answers [] calls ∧
      Database.progressStore.answers [] [.set q, .get "q"] =
        inMemory.answers [] [.set q, .get "q"] := by
  intro p q calls
  have hfits : p.FitsWords := ⟨by decide, by decide, by decide⟩
  have hmemory : inMemory.answers [] calls = [.ok (some p), .ok (some q), .ok none] := rfl
  have hq : q.IsRepresentable := ⟨by decide, by decide, by decide⟩
  obtain ⟨hiff, hanswers, -, hrestored, -⟩ := answers_database_eq_iff calls
  obtain ⟨hiff', -, -, -, -⟩ := answers_database_eq_iff [.set q, .get "q"]
  refine ⟨hfits, by decide, hmemory, ?_, fun heq => ?_, hiff'.mpr fun s hs => ?_⟩
  · rw [hanswers, hmemory, List.map_cons, List.map_cons, Except.map, Option.map_some,
      hrestored p hfits, Except.map, Option.map_some, PlanState.restored_eq_self_iff.mpr hq]
    rfl
  · have hp := hiff.mp heq p (hmemory ▸ List.mem_cons_self)
    exact absurd hp.progress (by decide)
  · obtain rfl : s = q := by
      have hset : inMemory.answers [] [.set q, .get "q"] = [.ok (some q)] := rfl
      rw [hset] at hs
      simpa using hs
    exact hq

end ProgressStore

end PlaceSearch
