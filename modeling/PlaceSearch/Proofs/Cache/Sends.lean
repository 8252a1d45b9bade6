import PlaceSearch.Proofs.Cache.Keeps
import PlaceSearch.Proofs.Cache.Stored
import PlaceSearch.Search

/-!
# Processes that send requests

A process over a session sends requests, and what it returns may speak of the requests that were
sent.  Such a statement is only of use later on if it stays true when more are sent, by the process
or by others.  So a process notes the log as it left it: at its next turn the log holds all of this
and maybe more.
-/

namespace PlaceSearch

/-- The statement stays true when more requests are sent. -/
def Lasting (F : List Request → Prop) : Prop :=
  ∀ ⦃sent sent' : List Request⦄, sent ⊆ sent' → F sent → F sent'

theorem lasting_const (p : Prop) : Lasting fun _ => p :=
  fun _ _ _ => id

theorem Lasting.and {F G : List Request → Prop} (hF : Lasting F) (hG : Lasting G) :
    Lasting fun sent => F sent ∧ G sent :=
  fun _ _ hsub h => ⟨hF hsub h.1, hG hsub h.2⟩

variable {σ α β : Type} {P : Session σ → Prop} {F G : List Request → Prop}

/-- The log of requests is noted.  At a turn it may have grown, and an act takes nothing out of
it. -/
def Discipline.sending (P : Session σ → Prop) : Discipline (Session σ) (List Request) where
  assumes sent s := P s ∧ sent ⊆ s.sent
  allows _ s s' sent' := P s' ∧ s.sent ⊆ s'.sent ∧ sent' = s'.sent

/-- If `F` holds of the log that was noted, the process keeps `P`, forgets no request, and returns
what `Q` says of the log that it notes last. -/
def Sends (P : Session σ → Prop) (F : List Request → Prop) (p : Process (Session σ) α)
    (Q : α → List Request → Prop) : Prop :=
  ∀ sent, F sent → p.Obeys (.sending P) Q sent

/-- A log with `F` may go on with the request, in both its shapes, and still have `Log`. -/
def Admits (F Log : List Request → Prop) (r : Request) : Prop :=
  ∀ sent, F sent → Log sent → ∀ r', r' = r ∨ r' = r.toLegacy → Log (r' :: sent)

namespace Sends

theorem pure {Q : α → List Request → Prop} {a : α} (h : ∀ sent, F sent → Q a sent) :
    Sends P F (Pure.pure a) Q :=
  h

theorem bind {p : Process (Session σ) α} {f : α → Process (Session σ) β}
    {Q : α → List Request → Prop} {R : β → List Request → Prop} (hp : Sends P F p Q)
    (hf : ∀ a, Sends P (Q a) (f a) R) : Sends P F (p >>= f) R :=
  fun sent hF => (hp sent hF).bind hf

/-- What lasts is still true after the process. -/
theorem frame {p : Process (Session σ) α} {Q : α → List Request → Prop} (hG : Lasting G)
    (h : Sends P F p Q) :
    Sends P (fun sent => F sent ∧ G sent) p fun a sent => Q a sent ∧ G sent := by
  rintro sent ⟨hF, hGsent⟩
  have hnotes := (h sent hF).and_notes (N := G) (fun hg hs hact => by
    obtain ⟨-, hsub, rfl⟩ := hact
    exact hG (List.Subset.trans hs.2 hsub) hg) hGsent
  have hswap := hnotes.bind (f := Pure.pure) (R := fun a sent => Q a sent ∧ G sent)
    fun a sent h => h.symm
  rwa [bind_pure] at hswap

/-- A stronger statement may hold before, and a weaker one after. -/
theorem weaken {p : Process (Session σ) α} {Q R : α → List Request → Prop} (h : Sends P F p Q)
    (hF : ∀ sent, G sent → F sent) (hQ : ∀ a sent, Q a sent → R a sent) : Sends P G p R := by
  have hbind : Sends P G (p >>= Pure.pure) R :=
    bind (fun sent hG => h sent (hF sent hG)) fun a => pure (hQ a)
  rwa [bind_pure] at hbind

/-- A list of processes, one for each item, returns a list of results, one for each item. -/
theorem mapM {f : α → Process (Session σ) β} {Q : α → β → List Request → Prop} {xs : List α}
    (hF : Lasting F) (hQ : ∀ x b, Lasting (Q x b)) (h : ∀ x ∈ xs, Sends P F (f x) (Q x)) :
    Sends P F (xs.mapM f) fun bs sent => List.Forall₂ (fun x b => Q x b sent) xs bs := by
  induction xs with
  | nil => exact pure fun _ _ => .nil
  | cons x xs ih =>
    obtain ⟨hx, hxs⟩ := List.forall_mem_cons.mp h
    rw [List.mapM_cons]
    have hhead : Sends P F (f x) fun b sent => Q x b sent ∧ F sent :=
      (hx.frame hF).weaken (fun _ hsent => ⟨hsent, hsent⟩) fun _ _ => id
    refine hhead.bind fun b => ?_
    have htail : Sends P (fun sent => Q x b sent ∧ F sent) (xs.mapM f) fun bs sent =>
        List.Forall₂ (fun x b => Q x b sent) xs bs ∧ Q x b sent :=
      ((ih hxs).frame (hQ x b)).weaken (fun _ hsent => hsent.symm) fun _ _ => id
    exact htail.bind fun bs => pure fun _ hsent => .cons hsent.2 hsent.1

/-- What was said of shorter logs holds of a log that has all their requests. -/
theorem forall₂_of_subset {Q : α → β → List Request → Prop} (hQ : ∀ x b, Lasting (Q x b))
    {xs : List α} {ends : List (β × List Request)} {sent : List Request}
    (h : List.Forall₂ (fun x e => Q x e.1 e.2) xs ends)
    (hsub : ∀ sent' ∈ ends.map (·.2), sent' ⊆ sent) :
    List.Forall₂ (fun x b => Q x b sent) xs (ends.map (·.1)) := by
  induction h with
  | nil => exact .nil
  | cons hx _ ih =>
    obtain ⟨hfirst, hrest⟩ := List.forall_mem_cons.mp hsub
    exact .cons (hQ _ _ hfirst hx) (ih hrest)

/-- Processes that take turns return a list of results, one for each of them. -/
theorem together {f : α → Process (Session σ) β} {Q : α → β → List Request → Prop} {xs : List α}
    (hQ : ∀ x b, Lasting (Q x b)) (h : ∀ x ∈ xs, Sends P F (f x) (Q x))
    {choose : Session σ → List Duration → Nat} (htick : ∀ s, P s → P s.tick) :
    Sends P F ((Turns.together (xs.map f)).play choose Session.tick) fun bs sent =>
      List.Forall₂ (fun x b => Q x b sent) xs bs := by
  intro sent hF
  refine (Turns.Obeys.together fun x hx => h x hx sent hF).play
    (fun sent sents => ∀ sent' ∈ sents, sent' ⊆ sent) ?_ ?_ ?_ ?_ ?_
  · exact fun hI hs sent' hmem => ⟨hs.1, List.Subset.trans (hI sent' hmem) hs.2⟩
  · exact fun hI hs => ⟨_, ⟨htick _ hs.1, List.Subset.refl _, rfl⟩,
      fun sent' hmem => List.Subset.trans (hI sent' hmem) hs.2⟩
  · rintro sent sents s j _ s' _ hI hs - ⟨hP, hsub, rfl⟩
    refine ⟨_, ⟨htick _ hP, hsub, rfl⟩, fun sent' hmem => ?_⟩
    rcases List.mem_or_eq_of_mem_set hmem with hmem | rfl
    · exact List.Subset.trans (hI sent' hmem) (List.Subset.trans hs.2 hsub)
    · exact List.Subset.refl _
  · rintro bs sent sents hI ⟨ends, rfl, rfl, hends⟩
    exact forall₂_of_subset hQ hends hI
  · simp

/-- What a process by itself leads to. -/
theorem run {p : Process (Session σ) α} {Q : α → List Request → Prop} (h : Sends P F p Q)
    {s : Session σ} (hs : P s) (hF : F s.sent) :
    P (p.run s).2 ∧ s.sent ⊆ (p.run s).2.sent ∧ Q (p.run s).1 (p.run s).2.sent := by
  obtain ⟨_, hQ, hP, hsub, rfl⟩ := Process.Obeys.run (D := .sending P)
    (I := fun sent s' => P s' ∧ s.sent ⊆ s'.sent ∧ sent = s'.sent)
    (fun hI => ⟨hI.1, hI.2.2 ▸ List.Subset.refl _⟩)
    (fun hI hact => ⟨hact.1, List.Subset.trans hI.2.1 hact.2.1, hact.2.2⟩)
    (h s.sent hF) ⟨hs, List.Subset.refl _, rfl⟩
  exact ⟨hP, hsub, hQ⟩

/-! ## Reading, keeping, calling -/

section Resolver

variable {r : Resolver σ} {holds : σ → CacheKey → Dataset → Prop}
  {Right : List Request → CacheKey → Dataset → Prop} {Log : List Request → Prop}

/-- Reading sends nothing, and what is found is right. -/
theorem lookup (hstore : r.store.IsHonest holds) (hF : Lasting F) (key : CacheKey) :
    Sends (fun s => Resolver.Stored holds Right s ∧ Log s.sent) F (liftM (r.lookup key))
      fun found sent => F sent ∧ ∀ d ∈ found, Right sent key d := by
  refine fun sent hsent => .lift fun s ⟨⟨hs, hlog⟩, hsub⟩ => ?_
  obtain ⟨hfound, hs'⟩ := hs.lookup hstore key
  exact ⟨s.sent, ⟨⟨hs', hlog⟩, List.Subset.refl _, rfl⟩, hF hsub hsent, hfound⟩

/-- Keeping a right answer sends nothing either. -/
theorem keepWhole (hstore : r.store.IsHonest holds) (hF : Lasting F) {key : CacheKey}
    {answer : Resolved} (hright : ∀ sent, F sent → Right sent key answer.dataset) :
    Sends (fun s => Resolver.Stored holds Right s ∧ Log s.sent) F (liftM (r.keepWhole key answer))
      fun _ => F := by
  refine fun sent hsent => .lift fun s ⟨⟨hs, hlog⟩, hsub⟩ => ?_
  have hs' := hs.keepWhole hstore (hright s.sent (hF hsub hsent))
  have hsame := Resolver.sent_keepWhole (r := r) key answer s
  refine ⟨s.sent, ⟨⟨hs', ?_⟩, ?_, hsame.symm⟩, hF hsub hsent⟩
  · rwa [hsame]
  · rw [hsame]
    exact List.Subset.refl _

/-- A call sends its request, and returns the outcome of some exchanges. -/
theorem call (hgrow : ∀ key d, Lasting fun sent => Right sent key d) (hF : Lasting F)
    {request : Request} (hadmits : Admits F Log request) :
    Sends (fun s => Resolver.Stored holds Right s ∧ Log s.sent) F (r.call request)
      fun o sent => request ∈ sent ∧ ∃ g, o.IsOf r.transport r.policy request g := by
  refine fun sent hsent => (obeys_execute r.transport r.policy request).within
    (fun sent g => F sent ∧ ∀ e ∈ g, e.request ∈ sent) (fun _ _ => trivial) ?_ ?_
    ⟨hsent, nofun⟩
  · rintro sent g s _ _ ⟨hsent, hg⟩ ⟨⟨hs, hlog⟩, hsub⟩ ⟨r', hr', rfl, rfl⟩
    have hcons := List.subset_cons_self r' s.sent
    refine ⟨r' :: s.sent, ⟨⟨fun k d hd => hgrow k d hcons (hs k d hd), ?_⟩, hcons, rfl⟩,
      hF (List.Subset.trans hsub hcons) hsent, ?_⟩
    · exact hadmits s.sent (hF hsub hsent) hlog r' hr'
    · exact List.forall_mem_cons.mpr
        ⟨List.mem_cons_self, fun e he => hcons (hsub (hg e he))⟩
  · rintro o sent g ⟨-, hg⟩ ho
    obtain ⟨e, he, rfl⟩ := ho.exists_mem
    exact ⟨hg e he, g, ho⟩

end Resolver

end Sends

end PlaceSearch
