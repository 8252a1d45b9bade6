import PlaceSearch.Proofs.Cache.Key
import PlaceSearch.Proofs.Cache.Stored

/-!
# What the resolver answers

An answer to a search by category may come from the store under its own key, from two stored
answers, or from the provider.  Whatever the store does, these agree, as long as it gives back
only what was written: everything under the key of a call is a right answer to this call, and
each step of the resolver keeps it so.

What makes an answer right is left open.  It has to hold of what the provider answers, and to go
along with the difference by which answers are composed.
-/

namespace PlaceSearch

variable {σ : Type}

/-- A judgement of answers to searches by category, by what they include and exclude, that fits
the resolver: it looks at the types asked for only as sets, holds of what the provider answers,
and goes along with composing an answer of two. -/
structure Resolver.Judges (r : Resolver σ)
    (Good : List String → List String → Dataset → Prop) : Prop where
  congr : ∀ {included included' excluded excluded' d},
    (∀ t, t ∈ included ↔ t ∈ included') → (∀ t, t ∈ excluded ↔ t ∈ excluded') →
      Good included excluded d → Good included' excluded' d
  call : ∀ (geo : Geo) (included excluded : List String) (o : Outcome) (g : List Exchange),
    o.IsOf r.transport r.policy (.ofCategories geo included excluded) g →
      Good included excluded o.dataset
  difference : ∀ {included excluded a b}, excluded ≠ [] →
    Good included [] a → Good excluded [] b → Good included excluded (a.difference b)

namespace Resolver

/-- Under the key of a search by category for plain types at a place exactly the good answers to
it are right. -/
structure Files (Right : CacheKey → Dataset → Prop)
    (Good : List String → List String → Dataset → Prop) (geo : Geo) : Prop where
  read : ∀ {included excluded d}, (∀ t ∈ included, CacheKey.IsPlain t) →
    (∀ t ∈ excluded, CacheKey.IsPlain t) →
      Right (.build SearchKind.category.name geo included excluded) d → Good included excluded d
  write : ∀ {included excluded d}, (∀ t ∈ included, CacheKey.IsPlain t) →
    (∀ t ∈ excluded, CacheKey.IsPlain t) →
      Good included excluded d → Right (.build SearchKind.category.name geo included excluded) d

variable {r : Resolver σ} {holds : σ → CacheKey → Dataset → Prop}
  {Right : CacheKey → Dataset → Prop} {Good : List String → List String → Dataset → Prop}
  {geo : Geo} {included excluded : List String}

theorem keeps_lookup (hstore : r.store.IsHonest holds) (key : CacheKey) :
    Keeps (Stored holds fun _ => Right) (liftM (r.lookup key)) fun found =>
      ∀ d ∈ found, Right key d :=
  .lift fun _ hs => hs.lookup hstore key

theorem keeps_keepWhole (hstore : r.store.IsHonest holds) {key : CacheKey} {answer : Resolved}
    (hanswer : Right key answer.dataset) :
    Keeps (Stored holds fun _ => Right) (liftM (r.keepWhole key answer)) fun _ => True :=
  .lift fun _ hs => ⟨trivial, hs.keepWhole hstore hanswer⟩

theorem keeps_call (hgood : r.Judges Good) :
    Keeps (Stored holds fun _ => Right) (r.call (.ofCategories geo included excluded))
      fun outcome => Good included excluded outcome.dataset :=
  (Keeps.call _ fun _ _ hs => hs).weaken fun o ⟨g, ho⟩ => hgood.call geo included excluded o g ho

theorem keeps_composed (hstore : r.store.IsHonest holds) (hgood : r.Judges Good)
    (hfiles : Files Right Good geo) {d : CallDescriptor}
    (hi : ∀ t ∈ d.included, CacheKey.IsPlain t) (he : ∀ t ∈ d.excluded, CacheKey.IsPlain t) :
    Keeps (Stored holds fun _ => Right) (r.composed d geo)
      fun found => ∀ a ∈ found, Good d.included d.excluded a := by
  have hnone : ∀ t ∈ ([] : List String), CacheKey.IsPlain t := by simp
  rw [composed]
  split
  · exact .pure (by simp)
  · next hne =>
    refine .bind (keeps_lookup hstore _) fun found hfound => ?_
    cases found with
    | none => exact .pure (by simp)
    | some a =>
      refine .bind (keeps_lookup hstore _) fun found hfound' => ?_
      cases found with
      | none => exact .pure (by simp)
      | some b =>
        refine .pure fun c hc => ?_
        obtain rfl := Option.some.inj hc
        exact hgood.difference (by simpa using hne) (hfiles.read hi hnone (hfound a rfl))
          (hfiles.read he hnone (hfound' b rfl))

theorem keeps_resolveCategory (hstore : r.store.IsHonest holds) (hgood : r.Judges Good)
    (hfiles : Files Right Good geo) {d : CallDescriptor}
    (hi : ∀ t ∈ d.included, CacheKey.IsPlain t) (he : ∀ t ∈ d.excluded, CacheKey.IsPlain t) :
    Keeps (Stored holds fun _ => Right) (r.resolveCategory d geo)
      fun answer => Good d.included d.excluded answer.dataset := by
  rw [resolveCategory]
  refine .bind (keeps_composed hstore hgood hfiles hi he) fun found hfound => ?_
  cases found with
  | some a => exact .pure (hfound a rfl)
  | none => exact .bind (keeps_call hgood) fun outcome houtcome => .pure houtcome

/-- The resolver gives good answers to searches by category and keeps the store right. -/
theorem keeps_resolve (hstore : r.store.IsHonest holds) (hgood : r.Judges Good)
    (hfiles : Files Right Good geo) {d : CallDescriptor} (hkind : d.kind = .category)
    (hi : ∀ t ∈ d.included, CacheKey.IsPlain t) (he : ∀ t ∈ d.excluded, CacheKey.IsPlain t) :
    Keeps (Stored holds fun _ => Right) (r.resolve d geo)
      fun answer => Good d.included d.excluded answer.dataset := by
  rw [resolve, CacheKey.ofDescriptor, hkind]
  refine .bind (keeps_lookup hstore _) fun found hfound => ?_
  cases found with
  | some a => exact .pure (hfiles.read hi he (hfound a rfl))
  | none =>
    refine .bind (keeps_resolveCategory hstore hgood hfiles hi he) fun answer hanswer => ?_
    exact .bind (keeps_keepWhole hstore (hfiles.write hi he hanswer)) fun _ _ => .pure hanswer

/-! ## One place -/

/-- What is stored under the key of a call at a place is a right answer to it. -/
def Sound (holds : σ → CacheKey → Dataset → Prop)
    (Good : List String → List String → Dataset → Prop) (geo : Geo) (s : Session σ) : Prop :=
  ∀ k d, holds s.store k d → ∃ included excluded,
    (∀ t ∈ included, CacheKey.IsPlain t) ∧ (∀ t ∈ excluded, CacheKey.IsPlain t) ∧
      k = .build SearchKind.category.name geo included excluded ∧ Good included excluded d

/-- The resolver gives good answers at a place and keeps the store sound. -/
theorem keeps_resolve_of_sound (hstore : r.store.IsHonest holds) (hgood : r.Judges Good)
    {d : CallDescriptor} (hkind : d.kind = .category)
    (hi : ∀ t ∈ d.included, CacheKey.IsPlain t) (he : ∀ t ∈ d.excluded, CacheKey.IsPlain t) :
    Keeps (Sound holds Good geo) (r.resolve d geo)
      fun answer => Good d.included d.excluded answer.dataset := by
  refine keeps_resolve hstore hgood ⟨fun hi he h => ?_, fun hi he h => ⟨_, _, hi, he, rfl, h⟩⟩
    hkind hi he
  obtain ⟨i, e, hi', he', hkey, hd⟩ := h
  obtain ⟨hincluded, hexcluded⟩ := CacheKey.mem_iff_of_build_eq hi' hi he' he hkey.symm
  exact hgood.congr hincluded hexcluded hd

end Resolver

end PlaceSearch
