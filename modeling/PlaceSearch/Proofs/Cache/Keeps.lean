import PlaceSearch.Cache.Resolver
import PlaceSearch.Proofs.Provider.Execute

/-!
# Processes that keep an invariant

A process keeps an invariant if each of its acts leads from every state with the invariant to one
with it; what it returns is described along with that.  Others may act in between, as long as they
keep the invariant too, so processes that keep one may take turns.

A process by itself may be described with more than an invariant: what it returns and the state it
leads to are told together.
-/

namespace PlaceSearch

variable {S σ α β : Type} {P : S → Prop}

/-- There is nothing to note: the invariant is assumed, and every act keeps it. -/
def Discipline.keeping (P : S → Prop) : Discipline S Unit where
  assumes _ s := P s
  allows _ _ s' _ := P s'

/-- The process keeps `P`, and returns what `Q` says. -/
def Keeps (P : S → Prop) (p : Process S α) (Q : α → Prop) : Prop :=
  p.Obeys (.keeping P) (fun a _ => Q a) ()

namespace Keeps

theorem pure {Q : α → Prop} {a : α} (h : Q a) : Keeps P (Pure.pure a) Q :=
  h

theorem lift {m : StateM S α} {Q : α → Prop} (h : ∀ s, P s → Q (m.run s).1 ∧ P (m.run s).2) :
    Keeps P (liftM m) Q :=
  Process.Obeys.lift fun s hs => ⟨(), (h s hs).2, (h s hs).1⟩

theorem bind {p : Process S α} {f : α → Process S β} {Q : α → Prop} {R : β → Prop}
    (hp : Keeps P p Q) (hf : ∀ a, Q a → Keeps P (f a) R) : Keeps P (p >>= f) R :=
  Process.Obeys.bind hp fun a _ ha => hf a ha

/-- A list of processes, one for each item, returns a list of results, one for each item. -/
theorem mapM {f : α → Process S β} {Q : α → β → Prop} {xs : List α}
    (h : ∀ x ∈ xs, Keeps P (f x) (Q x)) : Keeps P (xs.mapM f) (List.Forall₂ Q xs) := by
  induction xs with
  | nil => exact pure .nil
  | cons x xs ih =>
    obtain ⟨hx, hxs⟩ := List.forall_mem_cons.mp h
    rw [List.mapM_cons]
    refine bind hx fun y hy => ?_
    exact bind (ih hxs) fun ys hys => pure (.cons hy hys)

/-- Processes that keep `P` do so when they take turns. -/
theorem together {f : α → Process S β} {Q : α → β → Prop} {xs : List α}
    (h : ∀ x ∈ xs, Keeps P (f x) (Q x)) {choose : S → List Duration → Nat} {tick : S → S}
    (htick : ∀ s, P s → P (tick s)) :
    Keeps P ((Turns.together (xs.map f)).play choose tick) (List.Forall₂ Q xs) := by
  refine (Turns.Obeys.together h).play (fun _ _ => True) (fun _ hs _ _ => hs)
    (fun _ hs => ⟨(), htick _ hs, trivial⟩) (fun _ _ _ hact => ⟨(), htick _ hact, trivial⟩) ?_
    trivial
  rintro as _ gs - ⟨ends, rfl, -, hends⟩
  exact List.forall₂_map_right_iff.mpr hends

theorem run {p : Process S α} {Q : α → Prop} (h : Keeps P p Q) {s : S} (hs : P s) :
    Q (p.run s).1 ∧ P (p.run s).2 := by
  obtain ⟨_, hQ, hP⟩ := Process.Obeys.run (I := fun _ => P) id (fun _ hact => hact) h hs
  exact ⟨hQ, hP⟩

theorem weaken {p : Process S α} {Q R : α → Prop} (h : Keeps P p Q) (hQ : ∀ a, Q a → R a) :
    Keeps P p R := by
  have hbind := h.bind fun a ha => pure (hQ a ha)
  rwa [bind_pure] at hbind

/-- What each process of a list returns is described by one description for all. -/
theorem mapM_mem {f : α → Process S β} {Q : β → Prop} {xs : List α}
    (h : ∀ x ∈ xs, Keeps P (f x) Q) : Keeps P (xs.mapM f) fun ys => ∀ y ∈ ys, Q y :=
  (mapM h).weaken fun _ => forall_mem_of_forall₂

/-- A call keeps what does not depend on the requests sent, and returns the outcome of some
exchanges. -/
theorem call {r : Resolver σ} {P : Session σ → Prop} (request : Request)
    (hsent : ∀ s sent, P s → P { s with sent }) :
    Keeps P (r.call request) fun o => ∃ g, o.IsOf r.transport r.policy request g :=
  (obeys_execute r.transport r.policy request).within (fun _ _ => True) (fun _ _ => trivial)
    (fun _ hs _ => ⟨(), hsent _ _ hs, trivial⟩) (fun _ ho => ⟨_, ho⟩) trivial

end Keeps

/-- A call by itself returns the outcome of some exchanges. -/
theorem Resolver.exists_isOf_call (r : Resolver σ) (request : Request) (s : Session σ) :
    ∃ g, ((r.call request).run s).1.IsOf r.transport r.policy request g :=
  ((Keeps.call (P := fun _ => True) request fun _ _ => id).run (s := s) trivial).1

/-! ## Processes by themselves -/

/-- From every state with `P` the process by itself leads to a result and a state of which `Q`
holds. -/
def Leads (P : S → Prop) (p : Process S α) (Q : α → S → Prop) : Prop :=
  ∀ s, P s → Q (p.run s).1 (p.run s).2

namespace Leads

variable {Q : α → S → Prop} {R : β → S → Prop}

theorem pure {a : α} (h : ∀ s, P s → Q a s) : Leads P (Pure.pure a) Q :=
  h

/-- Nothing comes between the acts of a process by itself, so it keeps what each act keeps. -/
theorem of_keeps {p : Process S α} {Q : α → Prop} (h : Keeps P p Q) :
    Leads P p fun a s => Q a ∧ P s :=
  fun _ hs => h.run hs

theorem bind {p : Process S α} {f : α → Process S β} (hp : Leads P p Q)
    (hf : ∀ a, Leads (Q a) (f a) R) : Leads P (p >>= f) R := by
  intro s hs
  rw [Process.run_bind]
  exact hf _ _ (hp s hs)

theorem weaken {P' : S → Prop} {Q' : α → S → Prop} {p : Process S α} (h : Leads P p Q)
    (hP : ∀ s, P' s → P s) (hQ : ∀ a s, Q a s → Q' a s) : Leads P' p Q' :=
  fun s hs => hQ _ _ (h s (hP s hs))

/-- A list of processes that all keep an invariant, one after the other. -/
theorem mapM {f : α → Process S β} {Q : α → β → Prop} {xs : List α}
    (h : ∀ x ∈ xs, Leads P (f x) fun y s => Q x y ∧ P s) :
    Leads P (xs.mapM f) fun ys s => List.Forall₂ Q xs ys ∧ P s := by
  induction xs with
  | nil => exact pure fun s hs => ⟨.nil, hs⟩
  | cons x xs ih =>
    obtain ⟨hx, hxs⟩ := List.forall_mem_cons.mp h
    rw [List.mapM_cons]
    refine hx.bind fun y => ?_
    refine bind (Q := fun ys s => List.Forall₂ Q xs ys ∧ Q x y ∧ P s) (fun s hs => ?_) fun ys =>
      pure fun s hs => ⟨.cons hs.2.1 hs.1, hs.2.2⟩
    exact ⟨(ih hxs s hs.2).1, hs.1, (ih hxs s hs.2).2⟩

end Leads

end PlaceSearch
