import Mathlib.Data.List.Perm.Basic
import PlaceSearch.Proofs.Process

/-!
# Processes that write to a log

Several processes may write to one log, each adding entries in front and none taking any out.  A
process notes the entries that it has written itself, and what is said of it is said of these: so it
stays true whatever others write in between.  When processes have taken turns, the log has grown by
the entries of all of them, in some order.
-/

namespace PlaceSearch

variable {S α β ε ι : Type} {log : S → List ε} {P : S → Prop} {F G : List ε → Prop}

/-- A process notes its own entries in a log, latest first.  At its turn the log holds all of them,
and `P` holds; its acts keep `P` and only add entries. -/
def Discipline.logging (log : S → List ε) (P : S → Prop) : Discipline S (List ε) where
  assumes own s := P s ∧ own ⊆ log s
  allows own s s' own' := P s' ∧ ∃ new, log s' = new ++ log s ∧ own' = new ++ own

/-- If `F` holds of the entries of the process so far, then at its end `Q` holds of what it returns
and of all its entries. -/
def Logs (log : S → List ε) (P : S → Prop) (F : List ε → Prop) (p : Process S α)
    (Q : α → List ε → Prop) : Prop :=
  ∀ own, F own → p.Obeys (.logging log P) Q own

namespace Logs

variable {Q : α → List ε → Prop} {R : β → List ε → Prop}

theorem pure {a : α} (h : ∀ own, F own → Q a own) : Logs log P F (Pure.pure a) Q :=
  h

theorem lift {m : StateM S α}
    (h : ∀ own s, F own → P s → own ⊆ log s → P (m.run s).2 ∧
      ∃ new, log (m.run s).2 = new ++ log s ∧ Q (m.run s).1 (new ++ own)) :
    Logs log P F (liftM m) Q := by
  refine fun own hown => .lift fun s ⟨hs, hsub⟩ => ?_
  obtain ⟨hs', new, hlog, hQ⟩ := h own s hown hs hsub
  exact ⟨new ++ own, ⟨hs', new, hlog, rfl⟩, hQ⟩

theorem bind {p : Process S α} {f : α → Process S β} (hp : Logs log P F p Q)
    (hf : ∀ a, Logs log P (Q a) (f a) R) : Logs log P F (p >>= f) R :=
  fun own hown => (hp own hown).bind hf

/-- A stronger statement may hold before, and a weaker one after. -/
theorem weaken {p : Process S α} {Q' : α → List ε → Prop} (h : Logs log P F p Q)
    (hF : ∀ own, G own → F own) (hQ : ∀ a own, Q a own → Q' a own) : Logs log P G p Q' := by
  have hbind : Logs log P G (p >>= Pure.pure) Q' :=
    bind (fun own hG => h own (hF own hG)) fun a => pure (hQ a)
  rwa [bind_pure] at hbind

/-- What holds of the entries and of the results so far is kept along a list of processes. -/
theorem mapM {I : List β → List ε → Prop} {f : α → Process S β} {xs : List α}
    (h : ∀ x ∈ xs, ∀ bs, Logs log P (I bs) (f x) fun b => I (bs ++ [b])) (bs : List β) :
    Logs log P (I bs) (xs.mapM f) fun bs' => I (bs ++ bs') := by
  induction xs generalizing bs with
  | nil => exact pure fun own hown => by simpa using hown
  | cons x xs ih =>
    obtain ⟨hx, hxs⟩ := List.forall_mem_cons.mp h
    rw [List.mapM_cons]
    refine (hx bs).bind fun b => (ih hxs (bs ++ [b])).bind fun bs' => pure fun own hown => ?_
    rwa [List.append_cons]

/-- One of some lists of entries grows. -/
theorem perm_flatten_set {owns : List (List ε)} {j : Nat} {own : List ε} (hj : owns[j]? = some own)
    (new : List ε) : (owns.set j (new ++ own)).flatten.Perm (new ++ owns.flatten) := by
  induction owns generalizing j with
  | nil => cases hj
  | cons own' owns ih =>
    cases j with
    | zero =>
      obtain rfl := Option.some.inj hj
      rw [List.set_cons_zero, List.flatten_cons, List.flatten_cons, List.append_assoc]
    | succ j =>
      rw [List.set_cons_succ, List.flatten_cons, List.flatten_cons]
      exact ((ih hj).append_left own').trans (List.perm_append_comm_assoc own' new _)

/-- Processes that take turns have together written what each of them has. -/
theorem together {f : ι → Process S β} {Q : ι → β → List ε → Prop} {xs : List ι}
    (h : ∀ x ∈ xs, Logs log P (· = []) (f x) (Q x)) {choose : S → List Duration → Nat}
    {tick : S → S} (htick : ∀ s, P s → P (tick s)) (hlog : ∀ s, log (tick s) = log s) :
    Logs log P (· = []) ((Turns.together (xs.map f)).play choose tick) fun bs own =>
      ∃ ends : List (β × List ε), bs = ends.map (·.1) ∧ own.Perm (ends.flatMap (·.2)) ∧
        List.Forall₂ (fun x e => Q x e.1 e.2) xs ends := by
  rintro _ rfl
  refine (Turns.Obeys.together fun x hx => h x hx [] rfl).play
    (fun own owns => own.Perm owns.flatten) ?_ ?_ ?_ ?_ ?_
  · intro own owns s hI hs own' hmem
    refine ⟨hs.1, List.Subset.trans (fun e he => ?_) hs.2⟩
    exact hI.mem_iff.mpr (List.mem_flatten_of_mem hmem he)
  · exact fun hI hs => ⟨_, ⟨htick _ hs.1, [], hlog _, rfl⟩, hI⟩
  · rintro own owns s j own' s' _ hI - hj ⟨hs', new, hnew, rfl⟩
    exact ⟨_, ⟨htick _ hs', new, (hlog _).trans hnew, rfl⟩,
      (hI.append_left new).trans (perm_flatten_set hj new).symm⟩
  · rintro bs own owns hI ⟨ends, rfl, rfl, hends⟩
    exact ⟨ends, rfl, hI, hends⟩
  · simp

/-- A process by itself adds its entries to the log. -/
theorem run {p : Process S α} (h : Logs log P F p Q) (hF : F []) {s : S} (hs : P s) :
    P (p.run s).2 ∧ ∃ new, log (p.run s).2 = new ++ log s ∧ Q (p.run s).1 new := by
  have hassumes : ∀ {own s'}, P s' ∧ log s' = own ++ log s →
      (Discipline.logging log P).assumes own s' := fun ⟨hs', hlog⟩ =>
    ⟨hs', hlog ▸ List.subset_append_left _ _⟩
  have hallows : ∀ {own s' s'' own'}, P s' ∧ log s' = own ++ log s →
      (Discipline.logging log P).allows own s' s'' own' → P s'' ∧ log s'' = own' ++ log s := by
    rintro own s' s'' _ ⟨-, hlog⟩ ⟨hs'', new, hlog', rfl⟩
    exact ⟨hs'', by rw [hlog', hlog, List.append_assoc]⟩
  obtain ⟨own, hQ, hs', hlog⟩ := (h [] hF).run hassumes hallows ⟨hs, rfl⟩
  exact ⟨hs', own, hlog, hQ⟩

end Logs

end PlaceSearch
