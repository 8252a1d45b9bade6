import PlaceSearch.Proofs.Process

/-!
# Processes with something beside their state

A process can be watched by running it on a larger state, in which something stands beside its own.
The process that is watched covers the one that is not: it takes the same turns, and on the part
that is the own state of the other one each of its acts does the same.  What covers may be put
together as what is covered is, and processes that take turns are covered by those that cover them,
for every schedule.  So whatever is found out by watching is true of the process itself.

What a process returns can be noted in the larger state.  This is done with its last act, since a
further act would be a turn that the process does not take.
-/

namespace PlaceSearch

variable {S T Γ Δ α β γ δ ι : Type} {part : T → S} {f : β → α}

/-! ## Covering -/

/-- Turn by turn the process `p'` does to a part of its state what `p` does to its own; of what it
returns, `f` is what `p` returns. -/
inductive Process.Covers (part : T → S) (f : β → α) : Process T β → Process S α → Prop where
  | done (b : β) : Covers part f (.done b) (.done (f b))
  | act {after' : T → T} {next' : T → Process T β} {after : S → S} {next : S → Process S α}
      (hafter : ∀ t, part (after' t) = after (part t))
      (hnext : ∀ t, Covers part f (next' t) (next (part t))) :
      Covers part f (.act after' next') (.act after next)
  | pause {d : Duration} {next' : Process T β} {next : Process S α}
      (h : Covers part f next' next) : Covers part f (.pause d next') (.pause d next)

/-- The same of processes that take turns. -/
inductive Turns.Covers (part : T → S) (f : β → α) : Turns T β → Turns S α → Prop where
  | ended (b : β) : Covers part f (.ended b) (.ended (f b))
  | turn {due : List Duration} {after' : Nat → T → T} {next' : Nat → T → Turns T β}
      {after : Nat → S → S} {next : Nat → S → Turns S α}
      (hafter : ∀ i t, part (after' i t) = after i (part t))
      (hnext : ∀ i t, Covers part f (next' i t) (next i (part t))) :
      Covers part f (.turn due after' next') (.turn due after next)

namespace Process.Covers

theorem pure {a : α} {b : β} (h : f b = a) :
    Covers part f (Pure.pure b : Process T β) (Pure.pure a) :=
  h ▸ .done b

theorem lift {m' : StateM T β} {m : StateM S α}
    (h : ∀ t, m.run (part t) = (f (m'.run t).1, part (m'.run t).2)) :
    Covers part f (liftM m' : Process T β) (liftM m) :=
  .act (fun t => (congrArg Prod.snd (h t)).symm) fun t =>
    (congrArg Prod.fst (h t)).symm ▸ .done (m'.run t).1

theorem bind {p' : Process T β} {p : Process S α} {g' : β → Process T δ} {g : α → Process S γ}
    {h : δ → γ} (hp : Covers part f p' p) (hg : ∀ b, Covers part h (g' b) (g (f b))) :
    Covers part h (p' >>= g') (p >>= g) := by
  induction hp with
  | done b => exact hg b
  | act hafter _ ih => exact .act hafter ih
  | pause _ ih => exact .pause ih

theorem mapM {g' : ι → Process T β} {g : ι → Process S α} {xs : List ι}
    (h : ∀ x ∈ xs, Covers part f (g' x) (g x)) :
    Covers part (List.map f) (xs.mapM g') (xs.mapM g) := by
  induction xs with
  | nil => exact pure rfl
  | cons x xs ih =>
    obtain ⟨hx, hxs⟩ := List.forall_mem_cons.mp h
    rw [List.mapM_cons, List.mapM_cons]
    exact hx.bind fun b => (ih hxs).bind fun bs => pure rfl

/-- A process may return more. -/
theorem map {p' : Process T β} {p : Process S α} (hp : Covers part f p' p) {k : β → δ} {h : δ → α}
    (hk : ∀ b, h (k b) = f b) : Covers part h (k <$> p') p := by
  rw [map_eq_pure_bind, ← bind_pure p]
  exact hp.bind fun b => pure (hk b)

/-- A process on a part of the state is what it is on this part. -/
theorem within {put : T → S → T} (hpart : ∀ t s, part (put t s) = s) (p : Process S α) :
    Covers part id (p.within part put) p := by
  induction p with
  | done a => exact .done a
  | act after next ih => exact .act (fun t => hpart t _) fun t => ih (part t)
  | pause d next ih => exact .pause ih

/-- What a process returns and how it leaves the state is the same for one that covers it. -/
theorem run {p' : Process T β} {p : Process S α} (h : Covers part f p' p) (t : T) :
    p.run (part t) = (f (p'.run t).1, part (p'.run t).2) := by
  induction h generalizing t with
  | done b => rfl
  | act hafter _ ih =>
    rw [Process.run, Process.run, ← hafter]
    exact ih t _
  | pause _ ih => exact ih t

end Process.Covers

namespace Turns.Covers

theorem map {turns' : Turns T β} {turns : Turns S α} (h : Covers part f turns' turns)
    {g' : β → δ} {g : α → γ} {k : δ → γ} (hk : ∀ b, k (g' b) = g (f b)) :
    Covers part k (turns'.map g') (turns.map g) := by
  induction h with
  | ended b =>
    rw [Turns.map, Turns.map, ← hk]
    exact .ended (g' b)
  | turn hafter _ ih => exact .turn hafter ih

theorem beside {turns' : Turns T β} {turns : Turns S α} (h : Covers part f turns' turns)
    {after' : T → T} {after : S → S} (hafter : ∀ t, part (after' t) = after (part t))
    {own' : T → Turns T β → Turns T δ} {own : S → Turns S α → Turns S γ} {k : δ → γ}
    (hown : ∀ t {turns' turns}, Covers part f turns' turns →
      Covers part k (own' t turns') (own (part t) turns)) (due : Duration) :
    Covers part k (turns'.beside due after' own') (turns.beside due after own) := by
  induction h with
  | ended b => exact .turn (fun _ => hafter) fun _ t => hown t (.ended b)
  | turn hafter' hnext ih =>
    rw [Turns.beside, Turns.beside]
    refine .turn (fun i => ?_) fun i t => ?_
    · cases i with
      | zero => exact hafter
      | succ i => exact hafter' i
    · cases i with
      | zero => exact hown t (.turn hafter' hnext)
      | succ i => exact ih i t

theorem join {p' : Process T β} {p : Process S α} (hp : p'.Covers part f p)
    {turns' : Turns T δ} {turns : Turns S γ} {g : δ → γ} (h : Covers part g turns' turns)
    (due : Duration) :
    Covers part (Prod.map f g) (Turns.join p' due turns') (Turns.join p due turns) := by
  induction hp generalizing due turns' turns with
  | done b => exact h.map fun _ => rfl
  | act hafter _ ih => exact h.beside hafter (fun t _ _ hrest => ih t hrest due) due
  | pause _ ih => exact h.beside (fun _ => rfl) (fun _ _ _ hrest => ih hrest _) due

/-- Processes that take turns are covered by those that cover them. -/
theorem together {g' : ι → Process T β} {g : ι → Process S α} {xs : List ι}
    (h : ∀ x ∈ xs, (g' x).Covers part f (g x)) :
    Covers part (List.map f) (Turns.together (xs.map g')) (Turns.together (xs.map g)) := by
  induction xs with
  | nil => exact .ended []
  | cons x xs ih =>
    obtain ⟨hx, hxs⟩ := List.forall_mem_cons.mp h
    exact (join hx (ih hxs) .zero).map fun _ => rfl

theorem play {turns' : Turns T β} {turns : Turns S α} (h : Covers part f turns' turns)
    (choose : S → List Duration → Nat) {tick' : T → T} {tick : S → S}
    (htick : ∀ t, part (tick' t) = tick (part t)) :
    (turns'.play (fun t => choose (part t)) tick').Covers part f (turns.play choose tick) := by
  induction h with
  | ended b => exact .done b
  | turn hafter _ ih =>
    rw [Turns.play, Turns.play]
    refine .act (fun t => ?_) fun t => ih _ t
    rw [htick, hafter]

end Turns.Covers

/-! ## Noting what a process returns -/

namespace Process

/-- What a process returns that has no act left. -/
def result? : Process S α → Option α
  | done a => some a
  | act _ _ => none
  | pause _ next => next.result?

/-- With the last act of the process it is noted what the process returns. -/
def noting (note : α → S → S) : Process S α → Process S α
  | done a => done a
  | act after next =>
    act (fun s => ((next s).result?.elim id note) (after s)) fun s => (next s).noting note
  | pause d next => pause d (next.noting note)

theorem Covers.noting {p' : Process T β} {p : Process S α} (h : p'.Covers part f p)
    {note : β → T → T} (hnote : ∀ b t, part (note b t) = part t) :
    (p'.noting note).Covers part f p := by
  induction h with
  | done b => exact .done b
  | @act after' next' _ _ hafter _ ih =>
    refine .act (fun t => ?_) ih
    rw [← hafter]
    cases (next' t).result? with
    | none => rfl
    | some b => exact hnote b _
  | pause _ ih => exact .pause ih

theorem result?_noting {p : Process S α} {a : α} (ha : p.result? = some a) (note : α → S → S) :
    (p.noting note).result? = some a := by
  induction p with
  | done => exact ha
  | act => cases ha
  | pause _ _ ih => exact ih ha

namespace Obeys

variable {D : Discipline S Γ} {Q : α → Γ → Prop} {g : Γ}

/-- Of a process without a further act only the result counts. -/
theorem iff_of_result? {p : Process S α} {a : α} (ha : p.result? = some a) :
    p.Obeys D Q g ↔ Q a g := by
  induction p with
  | done b =>
    obtain rfl := Option.some.inj ha
    rfl
  | act => cases ha
  | pause _ _ ih => exact ih ha

/-- A process that obeys and has an act left does so with the note on its result, if its last act
may be followed by this note. -/
theorem noting {D' : Discipline S Δ} {Q' : α → Δ → Prop} {note : α → S → S} (I : Δ → Γ → Prop)
    (hassumes : ∀ {d g s}, I d g → D'.assumes d s → D.assumes g s)
    (hallows : ∀ {d g s s' g'}, I d g → D'.assumes d s → D.allows g s s' g' →
      ∃ d', D'.allows d s s' d' ∧ I d' g')
    (hlast : ∀ {a d g s s' g'}, I d g → D'.assumes d s → D.allows g s s' g' → Q a g' →
      ∃ d', D'.allows d s (note a s') d' ∧ Q' a d')
    {p : Process S α} (hp : p.Obeys D Q g) (hact : p.result? = none) {d : Δ} (hI : I d g) :
    (p.noting note).Obeys D' Q' d := by
  induction p generalizing g d with
  | done => cases hact
  | act after next ih =>
    intro s hs
    obtain ⟨g', hallowed, hnext⟩ := hp s (hassumes hI hs)
    cases hresult : (next s).result? with
    | none =>
      obtain ⟨d', hallowed', hI'⟩ := hallows hI hs hallowed
      refine ⟨d', ?_, ih s hnext hresult hI'⟩
      change D'.allows d s ((next s).result?.elim id note (after s)) d'
      rwa [hresult]
    | some a =>
      have hQ := (iff_of_result? hresult).mp hnext
      obtain ⟨d', hallowed', hQ'⟩ := hlast hI hs hallowed hQ
      refine ⟨d', ?_, (iff_of_result? (result?_noting hresult note)).mpr hQ'⟩
      change D'.allows d s ((next s).result?.elim id note (after s)) d'
      rwa [hresult]
  | pause _ next ih => exact ih hp hact hI

end Obeys

end Process

end PlaceSearch
