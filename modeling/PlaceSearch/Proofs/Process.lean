import Mathlib.Data.List.Forall2
import PlaceSearch.Process

/-!
# What processes do when they take turns

Between two acts of a process others may have changed the state, so that a process cannot rely on
finding it as it left it.  What it can rely on is what the others leave alone.  A discipline says
this: each process keeps notes, the notes say what may be assumed of the state at its turn, and
every act is one that the notes allow and that brings them up to date.  A process obeys if all its
acts do, whatever the states are in which its turns come, and the notes at its end are what is said
of its result.

Processes that obey may take turns in any order.  If each act of one of them leaves what the others
assume, then together they obey as well, with notes that sum up those of all.  So it is enough to
look at one process at a time, in all states that its notes admit.
-/

namespace PlaceSearch

variable {S T Γ Δ α β ι : Type}

/-- What is said of each result in turn is said of all of them. -/
theorem forall_mem_of_forall₂ {Q : β → Prop} {xs : List α} {ys : List β}
    (h : List.Forall₂ (fun _ y => Q y) xs ys) : ∀ y ∈ ys, Q y := by
  induction h with
  | nil => exact nofun
  | cons hy _ ih => exact List.forall_mem_cons.mpr ⟨hy, ih⟩

/-! ## Processes as programs -/

namespace Process

theorem bind_assoc (p : Process S α) {γ : Type} (f : α → Process S β) (g : β → Process S γ) :
    (p.bind f).bind g = p.bind fun a => (f a).bind g := by
  induction p with
  | done a => rfl
  | act after next ih => exact congrArg (act after) (funext ih)
  | pause d next ih => exact congrArg (pause d) ih

theorem bind_done (p : Process S α) : p.bind done = p := by
  induction p with
  | done a => rfl
  | act after next ih => exact congrArg (act after) (funext ih)
  | pause d next ih => exact congrArg (pause d) ih

instance : LawfulMonad (Process S) :=
  LawfulMonad.mk' _ bind_done (fun _ _ => rfl) fun p => p.bind_assoc

@[simp] theorem run_pure (a : α) (s : S) : (pure a : Process S α).run s = (a, s) :=
  rfl

@[simp] theorem run_lift (m : StateM S α) (s : S) :
    (liftM m : Process S α).run s = m.run s :=
  rfl

@[simp] theorem run_bind (p : Process S α) (f : α → Process S β) (s : S) :
    (p >>= f).run s = (f (p.run s).1).run (p.run s).2 := by
  change (p.bind f).run s = _
  induction p generalizing s with
  | done a => rfl
  | act after next ih => exact ih s (after s)
  | pause d next ih => exact ih s

/-- What the process may return, whatever others do between its acts. -/
inductive Returns : Process S α → α → Prop where
  | done (a : α) : Returns (.done a) a
  | act {after : S → S} {next : S → Process S α} {a : α} (s : S) (h : Returns (next s) a) :
    Returns (.act after next) a
  | pause {d : Duration} {next : Process S α} {a : α} (h : Returns next a) :
    Returns (.pause d next) a

theorem returns_run (p : Process S α) (s : S) : p.Returns (p.run s).1 := by
  induction p generalizing s with
  | done a => exact .done a
  | act after next ih => exact .act s (ih s (after s))
  | pause d next ih => exact .pause (ih s)

end Process

/-! ## Disciplines -/

/-- What a process with the notes `g` may assume of a state at its turn, and which acts are allowed
to it, with the notes that they lead to. -/
structure Discipline (S Γ : Type) where
  assumes : Γ → S → Prop
  allows : Γ → S → S → Γ → Prop

/-- All acts of the process are allowed, in any state that may be assumed, and at its end `Q` holds
of what it returns and of its notes. -/
def Process.Obeys (D : Discipline S Γ) (Q : α → Γ → Prop) : Process S α → Γ → Prop
  | .done a, g => Q a g
  | .act after next, g =>
    ∀ s, D.assumes g s → ∃ g', D.allows g s (after s) g' ∧ (next s).Obeys D Q g'
  | .pause _ next, g => next.Obeys D Q g

namespace Process.Obeys

variable {D : Discipline S Γ} {Q : α → Γ → Prop} {g : Γ}

theorem lift {m : StateM S α}
    (h : ∀ s, D.assumes g s → ∃ g', D.allows g s (m.run s).2 g' ∧ Q (m.run s).1 g') :
    (liftM m : Process S α).Obeys D Q g :=
  h

theorem bind {p : Process S α} {f : α → Process S β} {R : β → Γ → Prop} (hp : p.Obeys D Q g)
    (hf : ∀ a g', Q a g' → (f a).Obeys D R g') : (p >>= f).Obeys D R g := by
  change (p.bind f).Obeys D R g
  induction p generalizing g with
  | done a => exact hf a g hp
  | act after next ih =>
    intro s hs
    obtain ⟨g', hallows, hnext⟩ := hp s hs
    exact ⟨g', hallows, ih s hnext⟩
  | pause d next ih => exact ih hp

/-- A process that obeys one discipline obeys another one, if every act keeps a relation `I` between
the notes. -/
theorem relate {D' : Discipline S Δ} {Q' : α → Δ → Prop} (I : Δ → Γ → Prop)
    (hassumes : ∀ {d g s}, I d g → D'.assumes d s → D.assumes g s)
    (hallows : ∀ {d g s s' g'}, I d g → D'.assumes d s → D.allows g s s' g' →
      ∃ d', D'.allows d s s' d' ∧ I d' g')
    (hdone : ∀ {a d g}, I d g → Q a g → Q' a d) {p : Process S α} (hp : p.Obeys D Q g) {d : Δ}
    (hI : I d g) : p.Obeys D' Q' d := by
  induction p generalizing g d with
  | done a => exact hdone hI hp
  | act after next ih =>
    intro s hs
    obtain ⟨g', hact, hnext⟩ := hp s (hassumes hI hs)
    obtain ⟨d', hact', hI'⟩ := hallows hI hs hact
    exact ⟨d', hact', ih s hnext hI'⟩
  | pause _ next ih => exact ih hp hI

/-- A process that obeys may be seen with other notes, as a part of a larger state: the relation
`I` between the notes is kept by every act. -/
theorem within {D' : Discipline T Δ} {part : T → S} {put : T → S → T} {Q' : α → Δ → Prop}
    (I : Δ → Γ → Prop)
    (hassumes : ∀ {d g t}, I d g → D'.assumes d t → D.assumes g (part t))
    (hallows : ∀ {d g t s g'}, I d g → D'.assumes d t → D.allows g (part t) s g' →
      ∃ d', D'.allows d t (put t s) d' ∧ I d' g')
    (hdone : ∀ {a d g}, I d g → Q a g → Q' a d) {p : Process S α} (hp : p.Obeys D Q g) {d : Δ}
    (hI : I d g) : (p.within part put).Obeys D' Q' d := by
  induction p generalizing g d with
  | done a => exact hdone hI hp
  | act after next ih =>
    intro t ht
    obtain ⟨g', hact, hnext⟩ := hp (part t) (hassumes hI ht)
    obtain ⟨d', hact', hI'⟩ := hallows hI ht hact
    exact ⟨d', hact', ih _ hnext hI'⟩
  | pause _ next ih => exact ih hp hI

/-- What a process returns that nothing comes between, and how it leaves the state. -/
theorem run {I : Γ → S → Prop} (hassumes : ∀ {g s}, I g s → D.assumes g s)
    (hallows : ∀ {g s s' g'}, I g s → D.allows g s s' g' → I g' s') {p : Process S α}
    (hp : p.Obeys D Q g) {s : S} (hI : I g s) : ∃ g', Q (p.run s).1 g' ∧ I g' (p.run s).2 := by
  induction p generalizing g s with
  | done a => exact ⟨g, hp, hI⟩
  | act after next ih =>
    obtain ⟨g', hact, hnext⟩ := hp s (hassumes hI)
    exact ih s hnext (hallows hI hact)
  | pause d next ih => exact ih hp hI

/-- What a process returns, if it may assume nothing. -/
theorem of_returns (hassumes : ∀ g s, D.assumes g s) {p : Process S α} (hp : p.Obeys D Q g) {a : α}
    (h : p.Returns a) : ∃ g', Q a g' := by
  induction h generalizing g with
  | done a => exact ⟨g, hp⟩
  | act s _ ih =>
    obtain ⟨g', -, hnext⟩ := hp s (hassumes g s)
    exact ih hnext
  | pause _ ih => exact ih hp

/-- What every act that is allowed keeps of the notes may be added. -/
theorem and_notes {N : Γ → Prop}
    (hN : ∀ {g s s' g'}, N g → D.assumes g s → D.allows g s s' g' → N g')
    {p : Process S α} (hp : p.Obeys D Q g) (hg : N g) :
    p.Obeys D (fun a g => N g ∧ Q a g) g := by
  refine hp.relate (fun d g => d = g ∧ N g) ?_ ?_ ?_ ⟨rfl, hg⟩
  · rintro d _ s ⟨rfl, -⟩ hs
    exact hs
  · rintro d _ s s' g' ⟨rfl, hN'⟩ hs hact
    exact ⟨g', hact, rfl, hN hN' hs hact⟩
  · rintro a d _ ⟨rfl, hN'⟩ hQ
    exact ⟨hN', hQ⟩

/-- What a process returns is something that it may return. -/
theorem and_returns {p : Process S α} (hp : p.Obeys D Q g) :
    p.Obeys D (fun a g => p.Returns a ∧ Q a g) g := by
  have hsame : ∀ {p' : Process S α} {g}, p'.Obeys D Q g → (∀ a, p'.Returns a → p.Returns a) →
      p'.Obeys D (fun a g => p.Returns a ∧ Q a g) g := by
    intro p' g hp' hreturns
    induction p' generalizing g with
    | done a => exact ⟨hreturns a (.done a), hp'⟩
    | act after next ih =>
      intro s hs
      obtain ⟨g', hact, hnext⟩ := hp' s hs
      exact ⟨g', hact, ih s hnext fun a h => hreturns a (.act s h)⟩
    | pause d next ih => exact ih hp' fun a h => hreturns a (.pause h)
  exact hsame hp fun _ => id

end Process.Obeys

/-! ## Taking turns -/

/-- Every turn changes nothing, or is an act of one process that its notes allow, if the state is
one that all processes may assume.  At the end `Q` holds of the results and of all notes. -/
def Turns.Obeys (D : Discipline S Γ) (Q : α → List Γ → Prop) : Turns S α → List Γ → Prop
  | .ended a, gs => Q a gs
  | .turn _ after next, gs =>
    ∀ i s, (∀ g ∈ gs, D.assumes g s) →
      after i s = s ∧ (next i s).Obeys D Q gs ∨
        ∃ j g g', gs[j]? = some g ∧ D.allows g s (after i s) g' ∧
          (next i s).Obeys D Q (gs.set j g')

namespace Turns.Obeys

variable {D : Discipline S Γ} {Q : α → List Γ → Prop} {gs : List Γ}

theorem map {R : β → List Γ → Prop} {f : α → β} {turns : Turns S α} (h : turns.Obeys D Q gs)
    (hf : ∀ a gs, Q a gs → R (f a) gs) : (turns.map f).Obeys D R gs := by
  induction turns generalizing gs with
  | ended a => exact hf a gs h
  | turn due after next ih =>
    intro i s hs
    rcases h i s hs with ⟨hsame, hnext⟩ | ⟨j, g, g', hj, hact, hnext⟩
    · exact .inl ⟨hsame, ih i s hnext⟩
    · exact .inr ⟨j, g, g', hj, hact, ih i s hnext⟩

/-- The notes of a process that is done stand before those of the others. -/
theorem cons {R : α → List Γ → Prop} {g : Γ} {turns : Turns S α} (h : turns.Obeys D Q gs)
    (hR : ∀ a gs, Q a gs → R a (g :: gs)) : turns.Obeys D R (g :: gs) := by
  induction turns generalizing gs with
  | ended a => exact hR a gs h
  | turn due after next ih =>
    intro i s hs
    rcases h i s fun g' hg' => hs g' (List.mem_cons_of_mem g hg') with
      ⟨hsame, hnext⟩ | ⟨j, g₁, g', hj, hact, hnext⟩
    · exact .inl ⟨hsame, ih i s hnext⟩
    · exact .inr ⟨j + 1, g₁, g', hj, hact, ih i s hnext⟩

/-- Beside others that obey, a process obeys that either changes nothing at its next turn or acts as
its notes `g` allow. -/
theorem beside {R : β → List Γ → Prop} {due : Duration} {after : S → S}
    {own : S → Turns S α → Turns S β} {g : Γ} {turns : Turns S α} (h : turns.Obeys D Q gs)
    (hown : ∀ {turns gs s}, turns.Obeys D Q gs → D.assumes g s →
      after s = s ∧ (own s turns).Obeys D R (g :: gs) ∨
        ∃ g', D.allows g s (after s) g' ∧ (own s turns).Obeys D R (g' :: gs)) :
    (turns.beside due after own).Obeys D R (g :: gs) := by
  have hturn : ∀ {turns gs s}, turns.Obeys D Q gs → D.assumes g s →
      after s = s ∧ (own s turns).Obeys D R (g :: gs) ∨
        ∃ j g₁ g', (g :: gs)[j]? = some g₁ ∧ D.allows g₁ s (after s) g' ∧
          (own s turns).Obeys D R ((g :: gs).set j g') := by
    intro turns gs s hturns hs
    rcases hown hturns hs with hsame | ⟨g', hact, hnext⟩
    · exact .inl hsame
    · exact .inr ⟨0, g, g', rfl, hact, hnext⟩
  induction turns generalizing gs with
  | ended a => exact fun i s hs => hturn h (hs g List.mem_cons_self)
  | turn others act next ih =>
    rw [Turns.beside]
    intro i s hs
    cases i with
    | zero => exact hturn h (hs g List.mem_cons_self)
    | succ i =>
      rcases h i s fun g' hg' => hs g' (List.mem_cons_of_mem g hg') with
        ⟨hsame, hnext⟩ | ⟨j, g₁, g', hj, hact, hnext⟩
      · exact .inl ⟨hsame, ih i s hnext⟩
      · exact .inr ⟨j + 1, g₁, g', hj, hact, ih i s hnext⟩

/-- One more process that obeys takes turns with others that do. -/
theorem join {Q₁ : β → Γ → Prop} {p : Process S β} {g : Γ} (hp : p.Obeys D Q₁ g) (due : Duration)
    {turns : Turns S α} (h : turns.Obeys D Q gs) :
    (Turns.join p due turns).Obeys D
      (fun r gs => ∃ g gs', gs = g :: gs' ∧ Q₁ r.1 g ∧ Q r.2 gs') (g :: gs) := by
  induction p generalizing due g turns gs with
  | done b => exact (h.cons fun a gs hQ => ⟨g, gs, rfl, hp, hQ⟩).map fun _ _ => id
  | act after next ih =>
    refine h.beside fun hturns hs => .inr ?_
    obtain ⟨g', hact, hnext⟩ := hp _ hs
    exact ⟨g', hact, ih _ hnext due hturns⟩
  | pause d next ih => exact h.beside fun hturns _ => .inl ⟨rfl, ih hp _ hturns⟩

/-- Processes that all obey do so when they take turns: each result is told by the notes of its
process. -/
theorem together {Q : ι → α → Γ → Prop} {f : ι → Process S α} {xs : List ι} {g : Γ}
    (h : ∀ x ∈ xs, (f x).Obeys D (Q x) g) :
    (Turns.together (xs.map f)).Obeys D
      (fun as gs => ∃ ends : List (α × Γ), as = ends.map (·.1) ∧ gs = ends.map (·.2) ∧
        List.Forall₂ (fun x e => Q x e.1 e.2) xs ends) (xs.map fun _ => g) := by
  induction xs with
  | nil => exact ⟨[], rfl, rfl, .nil⟩
  | cons x xs ih =>
    obtain ⟨hx, hxs⟩ := List.forall_mem_cons.mp h
    refine (join hx .zero (ih hxs)).map ?_
    rintro ⟨a, as⟩ gs ⟨g', gs', rfl, ha, ends, rfl, rfl, hends⟩
    exact ⟨(a, g') :: ends, rfl, rfl, .cons ha hends⟩

/-- Turns that obey, taken as any schedule says, are a process that obeys, with notes that sum up
those of all. -/
theorem play {D' : Discipline S Δ} {Q' : α → Δ → Prop} {choose : S → List Duration → Nat}
    {tick : S → S} (I : Δ → List Γ → Prop)
    (hassumes : ∀ {d gs s}, I d gs → D'.assumes d s → ∀ g ∈ gs, D.assumes g s)
    (htick : ∀ {d gs s}, I d gs → D'.assumes d s → ∃ d', D'.allows d s (tick s) d' ∧ I d' gs)
    (hallows : ∀ {d gs s j g s' g'}, I d gs → D'.assumes d s → gs[j]? = some g →
      D.allows g s s' g' → ∃ d', D'.allows d s (tick s') d' ∧ I d' (gs.set j g'))
    (hended : ∀ {a d gs}, I d gs → Q a gs → Q' a d) {turns : Turns S α} (h : turns.Obeys D Q gs)
    {d : Δ} (hI : I d gs) : (turns.play choose tick).Obeys D' Q' d := by
  induction turns generalizing d gs with
  | ended a => exact hended hI h
  | turn due after next ih =>
    intro s hs
    rcases h (choose s due) s (hassumes hI hs) with ⟨hsame, hnext⟩ | ⟨j, g, g', hj, hact, hnext⟩
    · obtain ⟨d', hact, hI'⟩ := htick hI hs
      refine ⟨d', ?_, ih _ s hnext hI'⟩
      change D'.allows d s (tick (after (choose s due) s)) d'
      rwa [hsame]
    · obtain ⟨d', hact', hI'⟩ := hallows hI hs hj hact
      exact ⟨d', hact', ih _ s hnext hI'⟩

end Turns.Obeys

end PlaceSearch
