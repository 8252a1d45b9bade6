import Mathlib.Algebra.GroupWithZero.Nat
import PlaceSearch.Proofs.Cache.Stored
import PlaceSearch.Proofs.Process.Log
import PlaceSearch.Search

/-!
# What a search is billed for

An answer tells how many requests were sent to get it.  It may come from the store, take several
attempts, fall back to an older shape, or be put together from other answers, and others may send
requests in between; whatever the transport and the store do, and whoever goes on next, the number
it tells is that of the requests that were sent for it.

The requests that were sent are a log, and what a process is billed for is the number of its own
entries.
-/

namespace PlaceSearch

variable {σ α β : Type} {n k l : Nat}

/-- So many requests were sent from the one state to the other. -/
def Session.Sent (n : Nat) (s s' : Session σ) : Prop :=
  ∃ more, s'.sent = more ++ s.sent ∧ more.length = n

namespace Session.Sent

variable {s s' s'' : Session σ}

theorem of_eq (h : s'.sent = s.sent) : Session.Sent 0 s s' :=
  ⟨[], h, rfl⟩

theorem trans (h : Session.Sent k s s') (h' : Session.Sent l s' s'') :
    Session.Sent (k + l) s s'' := by
  obtain ⟨more, hsent, rfl⟩ := h
  obtain ⟨more', hsent', rfl⟩ := h'
  refine ⟨more' ++ more, ?_, ?_⟩
  · rw [hsent', hsent, List.append_assoc]
  · rw [List.length_append, Nat.add_comm]

theorem length_eq (h : Session.Sent k s s') : s'.sent.length = s.sent.length + k := by
  obtain ⟨more, hsent, rfl⟩ := h
  rw [hsent, List.length_append, Nat.add_comm]

end Session.Sent

/-- If the process has sent `n` requests before, what it returns costs these and all that it sends
itself. -/
def Bills (n : Nat) (p : Process (Session σ) α) (cost : α → Nat) : Prop :=
  Logs Session.sent (fun _ => True) (fun own => own.length = n) p fun a own => own.length = cost a

namespace Bills

theorem pure {cost : α → Nat} {a : α} (h : n = cost a) :
    Bills n (Pure.pure a : Process (Session σ) α) cost :=
  Logs.pure fun _ hown => hown.trans h

/-- An act that sends nothing. -/
theorem lift {m : StateM (Session σ) α} (h : ∀ s, (m.run s).2.sent = s.sent) :
    Bills n (liftM m : Process (Session σ) α) fun _ => n :=
  Logs.lift fun _ s hown _ _ => ⟨trivial, [], h s, hown⟩

theorem bind {p : Process (Session σ) α} {f : α → Process (Session σ) β} {cost : α → Nat}
    {cost' : β → Nat} (hp : Bills n p cost) (hf : ∀ a, Bills (cost a) (f a) cost') :
    Bills n (p >>= f) cost' :=
  Logs.bind hp hf

/-- A list of processes, one after the other, costs the sum of what they cost. -/
theorem mapM {f : α → Process (Session σ) β} {cost : β → Nat} {xs : List α}
    (h : ∀ x ∈ xs, ∀ n, Bills n (f x) fun b => n + cost b) (n : Nat) :
    Bills n (xs.mapM f) fun bs => n + (bs.map cost).sum :=
  Logs.mapM (I := fun bs own => own.length = n + (bs.map cost).sum)
    (fun x hx bs => (h x hx _).weaken (fun _ => id) fun b own hown => by
      simpa [Nat.add_assoc] using hown) []

/-- Processes that take turns cost the sum of what they cost. -/
theorem together {f : α → Process (Session σ) β} {cost : β → Nat} {xs : List α}
    (h : ∀ x ∈ xs, Bills 0 (f x) cost) {choose : Session σ → List Duration → Nat} :
    Bills 0 ((Turns.together (xs.map f)).play choose Session.tick) fun bs =>
      (bs.map cost).sum := by
  have hempty : ∀ x ∈ xs, Logs Session.sent (fun _ => True) (· = []) (f x) fun b own =>
      own.length = cost b := fun x hx =>
    (h x hx).weaken (fun _ => List.length_eq_zero_iff.mpr) fun _ _ => id
  have htick : ∀ s : Session σ, s.tick.sent = s.sent := fun _ => rfl
  refine (Logs.together hempty (fun _ => id) htick).weaken
    (fun _ => List.length_eq_zero_iff.mp) ?_
  rintro bs own ⟨ends, rfl, hperm, hends⟩
  rw [hperm.length_eq]
  clear hperm h hempty
  induction hends with
  | nil => rfl
  | cons he _ ih => simp only [List.flatMap_cons, List.length_append, List.map_cons, List.sum_cons,
      he, ih]

/-- What a process by itself returns costs what it sends. -/
theorem run {p : Process (Session σ) α} {cost : α → Nat} (h : Bills 0 p cost) (s : Session σ) :
    Session.Sent (cost (p.run s).1) s (p.run s).2 := by
  obtain ⟨-, new, hsent, hcost⟩ := Logs.run h rfl (s := s) trivial
  exact ⟨new, hsent, hcost⟩

end Bills

/-! ## Answers to calls -/

/-- An answer that is put together costs what its parts cost. -/
theorem Resolved.apiCalls_combine (parts : List Resolved) (dataset : Dataset)
    (cursor : Option String) :
    (combine parts dataset cursor).apiCalls = (parts.map (·.apiCalls)).sum := by
  induction parts with
  | nil => rfl
  | cons part parts ih =>
    rw [List.map_cons, List.sum_cons, ← ih]
    rfl

namespace Resolver

variable (r : Resolver σ)

theorem bills_lookup (n : Nat) (key : CacheKey) :
    Bills n (liftM (r.lookup key) : Process (Session σ) _) fun _ => n :=
  .lift fun _ => rfl

theorem bills_keepWhole (n : Nat) (key : CacheKey) (answer : Resolved) :
    Bills n (liftM (r.keepWhole key answer) : Process (Session σ) _) fun _ => n :=
  .lift fun s => sent_keepWhole key answer s

/-- All attempts of a call are billed. -/
theorem bills_call (n : Nat) (request : Request) :
    Bills n (r.call request) fun outcome => n + outcome.attempts := by
  refine fun own hown => (obeys_execute r.transport r.policy request).within
    (fun own' g => own'.length = n + g.length) (fun _ _ => trivial) ?_ ?_ hown
  · rintro own' g s _ _ hlength - ⟨r', -, rfl, rfl⟩
    refine ⟨r' :: own', ⟨trivial, [r'], rfl, rfl⟩, ?_⟩
    rw [List.length_cons, List.length_cons, hlength, Nat.add_assoc]
  · rintro outcome own' g hlength houtcome
    exact hlength.trans (congrArg (n + ·) houtcome.attempts_eq.symm)

theorem bills_fetchPhrase (geo : Geo) (phrase : String) (n : Nat) :
    Bills n (r.fetchPhrase geo phrase) fun answer => n + answer.apiCalls := by
  rw [fetchPhrase]
  refine (r.bills_lookup n _).bind fun found => ?_
  cases found with
  | some d => exact .pure rfl
  | none =>
    refine (r.bills_call n _).bind fun outcome => ?_
    exact (r.bills_keepWhole _ _ _).bind fun _ => .pure rfl

theorem bills_composed (d : CallDescriptor) (geo : Geo) (n : Nat) :
    Bills n (r.composed d geo) fun _ => n := by
  rw [composed]
  split
  · exact .pure rfl
  · refine (r.bills_lookup n _).bind fun found => ?_
    cases found with
    | none => exact .pure rfl
    | some included =>
      refine (r.bills_lookup n _).bind fun found => ?_
      cases found <;> exact .pure rfl

theorem bills_resolveCategory (d : CallDescriptor) (geo : Geo) (n : Nat) :
    Bills n (r.resolveCategory d geo) fun answer => n + answer.apiCalls := by
  rw [resolveCategory]
  refine (r.bills_composed d geo n).bind fun found => ?_
  cases found with
  | some dataset => exact .pure rfl
  | none => exact (r.bills_call n _).bind fun outcome => .pure rfl

theorem bills_resolveText (d : CallDescriptor) (geo : Geo) (n : Nat) :
    Bills n (r.resolveText d geo) fun answer => n + answer.apiCalls := by
  rw [resolveText]
  split
  · exact .pure rfl
  · refine (Bills.mapM (fun x _ => r.bills_fetchPhrase _ x) n).bind fun included => ?_
    refine (Bills.mapM (fun x _ => r.bills_fetchPhrase _ x) _).bind fun excluded => .pure ?_
    rw [Resolved.apiCalls_combine, List.map_append, List.sum_append, Nat.add_assoc]

/-- The answer to a call is billed for the requests that were sent to get it. -/
theorem bills_resolve (d : CallDescriptor) (geo : Geo) (n : Nat) :
    Bills n (r.resolve d geo) fun answer => n + answer.apiCalls := by
  rw [resolve]
  refine (r.bills_lookup n _).bind fun found => ?_
  cases found with
  | some dataset => exact .pure rfl
  | none =>
    cases d.kind with
    | category =>
      exact (r.bills_resolveCategory d geo n).bind fun answer =>
        (r.bills_keepWhole _ _ answer).bind fun _ => .pure rfl
    | text =>
      exact (r.bills_resolveText d geo n).bind fun answer =>
        (r.bills_keepWhole _ _ answer).bind fun _ => .pure rfl

end Resolver

/-! ## Answers to searches -/

/-- What an answer is billed for, and an error for nothing. -/
def billed (apiCalls : α → Nat) : Except Error α → Nat
  | .ok answer => apiCalls answer
  | .error _ => 0

@[simp] theorem billed_map (f : α → β) (apiCalls : β → Nat) (result : Except Error α) :
    billed apiCalls (result.map f) = billed (fun a => apiCalls (f a)) result := by
  cases result <;> rfl

/-- The answer to a search is billed for the requests that were sent to get it; for an error none
was sent. -/
theorem Searcher.bills_searchDataset (s : Searcher σ) (query : String) (type : SearchType)
    (geo : Geo) : Bills 0 (s.searchDataset query type geo) (billed (·.apiCalls)) := by
  rw [searchDataset]
  refine (s.bills_lookup 0 _).bind fun found => ?_
  cases found with
  | some d => exact .pure rfl
  | none =>
    cases s.planCalls query type with
    | error e => exact .pure rfl
    | ok calls =>
      have hanswers : Bills 0 (s.resolveAll calls geo) fun answers =>
          (answers.map (·.apiCalls)).sum := .together fun d _ => by
        simpa only [Nat.zero_add] using s.bills_resolve d geo 0
      refine hanswers.bind fun answers => ?_
      refine (s.bills_keepWhole _ _ _).bind fun _ => .pure ?_
      rw [← Resolved.apiCalls_combine]
      rfl

end PlaceSearch
