import PlaceSearch.Cache.Resolver
import PlaceSearch.Proofs.Cache.Keeps

/-!
# What is in the store

A store is used rightly if all it may give back under a key is right for this key.  What is right
may depend on the requests sent so far, and stays right when more are sent.  Reading, keeping and
calling the provider leave the store so, if only right answers are kept.
-/

namespace PlaceSearch

/-- The store gives back only what was written before: `holds s k d` says that in the state `s`
it may give back the dataset `d` under the key `k`.  It may lose what was written, and every
access may fail. -/
structure DatasetStore.IsHonest {σ : Type} (store : DatasetStore σ)
    (holds : σ → CacheKey → Dataset → Prop) : Prop where
  get : ∀ {k s d}, ((store.get k).run s).1 = .ok (some d) → holds s k d
  after_get : ∀ {k s k' d}, holds ((store.get k).run s).2 k' d → holds s k' d
  after_put : ∀ {k d s k' d'}, holds ((store.put k d).run s).2 k' d' →
    holds s k' d' ∨ (k' = k ∧ d' = d)

namespace DatasetStore

/-- What is found after a dataset was written. -/
theorem get?_put {t : Table Dataset} {k k' : CacheKey} {d d' : Dataset}
    (h : (t.put k.canonical d).get? k'.canonical = some d') :
    t.get? k'.canonical = some d' ∨ (k' = k ∧ d' = d) := by
  by_cases hk : k'.canonical = k.canonical
  · have hput : (t.put k.canonical d).get? k'.canonical = some d := by
      rw [hk, Table.get?_put_self]
    exact .inr ⟨congrArg CacheKey.mk hk, Option.some.inj (h.symm.trans hput)⟩
  · have hput : (t.put k.canonical d).get? k'.canonical = t.get? k'.canonical :=
      Table.get?_put_of_ne hk d t
    exact .inl (hput.symm.trans h)

theorem isHonest_inMemory : inMemory.IsHonest fun t k d => t.get? k.canonical = some d where
  get := fun h => Except.ok.inj h
  after_get := id
  after_put := get?_put

/-- A store in memory whose accesses may fail: the one with number `n` does if `fails n`.  What
fails has no effect. -/
def unreliable (fails : Nat → Bool) : DatasetStore (Nat × Table Dataset) where
  get := fun key (n, t) =>
    (if fails n then .error (.cacheUnavailable "down") else .ok (t.get? key.canonical), n + 1, t)
  put := fun key d (n, t) =>
    if fails n then (.error (.cacheUnavailable "down"), n + 1, t)
    else (.ok (), n + 1, t.put key.canonical d)

/-- A store in memory is honest, whichever of its accesses fail. -/
theorem isHonest_unreliable (fails : Nat → Bool) :
    (unreliable fails).IsHonest fun s k d => s.2.get? k.canonical = some d where
  get := by
    rintro k ⟨n, t⟩ d h
    have hget : ((unreliable fails).get k).run (n, t) =
        (if fails n then .error (.cacheUnavailable "down") else .ok (t.get? k.canonical),
          n + 1, t) := rfl
    rw [hget] at h
    cases hfails : fails n with
    | true => simp [hfails] at h
    | false => simpa [hfails] using h
  after_get := id
  after_put := by
    rintro k d ⟨n, t⟩ k' d' h
    have hput : ((unreliable fails).put k d).run (n, t) =
        if fails n then (.error (.cacheUnavailable "down"), n + 1, t)
        else (.ok (), n + 1, t.put k.canonical d) := rfl
    rw [hput] at h
    split at h
    · exact .inl h
    · exact get?_put h

end DatasetStore

namespace Resolver

variable {σ : Type} {r : Resolver σ} {holds : σ → CacheKey → Dataset → Prop}
  {Right : List Request → CacheKey → Dataset → Prop}

/-- Everything that the store may give back is right for its key, after the requests sent. -/
def Stored (holds : σ → CacheKey → Dataset → Prop)
    (Right : List Request → CacheKey → Dataset → Prop) (s : Session σ) : Prop :=
  ∀ k d, holds s.store k d → Right s.sent k d

theorem eq_ok_of_toOption_join {α : Type} {found : Except Error (Option α)} {a : α}
    (h : found.toOption.join = some a) : found = .ok (some a) := by
  cases found with
  | error e => cases h
  | ok o => exact congrArg Except.ok h

/-- In an empty store everything is right. -/
theorem Stored.of_empty {s : Session σ} (h : ∀ k d, ¬holds s.store k d) : Stored holds Right s :=
  fun k d hd => absurd hd (h k d)

/-- What is found is right, and nothing else is stored by it. -/
theorem Stored.lookup (hstore : r.store.IsHonest holds) {s : Session σ}
    (hs : Stored holds Right s) (key : CacheKey) :
    (∀ d ∈ ((r.lookup key).run s).1, Right s.sent key d) ∧
      Stored holds Right ((r.lookup key).run s).2 :=
  ⟨fun d hd => hs key d (hstore.get (eq_ok_of_toOption_join hd)),
    fun k d hd => hs k d (hstore.after_get hd)⟩

theorem sent_keepWhole (key : CacheKey) (answer : Resolved) (s : Session σ) :
    ((r.keepWhole key answer).run s).2.sent = s.sent := by
  unfold keepWhole
  split
  · unfold keep
    split <;> rfl
  · rfl

/-- A right answer may be kept. -/
theorem Stored.keepWhole (hstore : r.store.IsHonest holds) {s : Session σ}
    (hs : Stored holds Right s) {key : CacheKey} {answer : Resolved}
    (hanswer : Right s.sent key answer.dataset) :
    Stored holds Right ((r.keepWhole key answer).run s).2 := by
  have hput : Stored holds Right { s with
      store := ((r.store.put key answer.dataset).run s.store).2 } := by
    intro k d hd
    rcases hstore.after_put hd with hd | ⟨rfl, rfl⟩
    · exact hs k d hd
    · exact hanswer
  unfold Resolver.keepWhole
  split
  · unfold keep
    split
    · exact hs
    · exact hput
  · exact hs

end Resolver

end PlaceSearch
