import Mathlib.Data.List.Induction
import PlaceSearch.Call.Optimize

/-!
# Tables of popularity and the order of their entries

The entries of a popularity table are put in lower case one after the other, in an order that
nothing fixes.  Names that become one term meet there, and the last of them decides: a term may
have every density that the text gives one of its names.  So a text determines its table exactly if
the names that become one term have one density, and then it determines the order of calls too.
-/

namespace PlaceSearch

/-! ## Tables -/

namespace Table

variable {α : Type} {k : String} {v : α} {t : Table α} {ps : List (String × α)}

theorem mem_keys_put {k' : String} : k' ∈ (put k v t).map Prod.fst ↔
    k' = k ∨ k' ∈ t.map Prod.fst := by
  induction t with
  | nil => simp [put]
  | cons p t ih =>
    obtain ⟨k'', v'⟩ := p
    rw [put]
    split
    · rename_i heq
      simp [heq]
    · rw [List.map_cons, List.mem_cons, ih, List.map_cons, List.mem_cons]
      exact or_left_comm

theorem nodup_keys_put (h : (t.map Prod.fst).Nodup) : ((put k v t).map Prod.fst).Nodup := by
  induction t with
  | nil => simp [put]
  | cons p t ih =>
    obtain ⟨k', v'⟩ := p
    obtain ⟨hk', ht⟩ := List.nodup_cons.mp h
    rw [put]
    split
    · rename_i heq
      exact List.nodup_cons.mpr ⟨heq ▸ hk', ht⟩
    · rename_i hne
      refine List.nodup_cons.mpr ⟨fun hmem => ?_, ih ht⟩
      exact (mem_keys_put.mp hmem).elim hne hk'

theorem ofPairs_concat (ps : List (String × α)) (p : String × α) :
    ofPairs (ps ++ [p]) = put p.1 p.2 (ofPairs ps) := by
  rw [ofPairs, List.foldl_append]
  rfl

theorem nodup_keys_ofPairs (ps : List (String × α)) : ((ofPairs ps).map Prod.fst).Nodup := by
  induction ps using List.reverseRecOn with
  | nil => exact List.nodup_nil
  | append_singleton ps p ih =>
    rw [ofPairs_concat]
    exact nodup_keys_put ih

theorem get?_eq_some_iff (h : (t.map Prod.fst).Nodup) : get? k t = some v ↔ (k, v) ∈ t := by
  induction t with
  | nil => simp
  | cons p t ih =>
    obtain ⟨k', v'⟩ := p
    obtain ⟨hk', ht⟩ := List.nodup_cons.mp h
    rw [get?_cons, List.mem_cons]
    by_cases heq : k = k'
    · subst heq
      have hnot : (k, v) ∉ t := fun hmem => hk' (List.mem_map.mpr ⟨_, hmem, rfl⟩)
      simp [hnot, eq_comm]
    · simp [heq, ih ht]

/-- The last pair of a key decides. -/
theorem get?_ofPairs (k : String) (ps : List (String × α)) :
    get? k (ofPairs ps) = get? k ps.reverse := by
  induction ps using List.reverseRecOn with
  | nil => rfl
  | append_singleton ps p ih =>
    rw [ofPairs_concat, List.reverse_append, List.reverse_singleton, List.singleton_append,
      get?_cons]
    by_cases heq : k = p.1
    · rw [if_pos heq, heq, get?_put_self]
    · rw [if_neg heq, get?_put_of_ne heq, ih]

theorem get?_ofPairs_eq_some_iff : get? k (ofPairs ps) = some v ↔
    ∃ before after, ps = before ++ (k, v) :: after ∧ ∀ p ∈ after, p.1 ≠ k := by
  rw [get?_ofPairs, get?, List.lookup_eq_some_iff]
  constructor
  · rintro ⟨after, before, hps, hafter⟩
    refine ⟨before.reverse, after.reverse, ?_, fun p hp => ?_⟩
    · rw [← List.reverse_reverse ps, hps]
      simp
    · exact (bne_iff_ne.mp (hafter p (List.mem_reverse.mp hp))).symm
  · rintro ⟨before, after, rfl, hafter⟩
    refine ⟨after.reverse, before.reverse, by simp, fun p hp => ?_⟩
    exact bne_iff_ne.mpr (hafter p (List.mem_reverse.mp hp)).symm

theorem get?_ofPairs_eq_none_iff : get? k (ofPairs ps) = none ↔ ∀ p ∈ ps, p.1 ≠ k := by
  rw [get?_ofPairs, get?, List.lookup_eq_none_iff]
  refine ⟨fun h p hp => ?_, fun h p hp => ?_⟩
  · exact (bne_iff_ne.mp (h p (List.mem_reverse.mpr hp))).symm
  · exact bne_iff_ne.mpr (h p (List.mem_reverse.mp hp)).symm

/-- In some order of the pairs, each of those with a key is the last one. -/
theorem exists_perm_get?_iff {β : Type} {f : β → String × α} {xs : List β} :
    (∃ ys : List β, ys.Perm xs ∧ get? k (ofPairs (ys.map f)) = some v) ↔
      ∃ x ∈ xs, f x = (k, v) := by
  constructor
  · rintro ⟨ys, hperm, hget⟩
    obtain ⟨before, after, hys, -⟩ := get?_ofPairs_eq_some_iff.mp hget
    have hmem : (k, v) ∈ ys.map f := hys ▸ List.mem_append_right before List.mem_cons_self
    obtain ⟨x, hx, hfx⟩ := List.mem_map.mp hmem
    exact ⟨x, hperm.subset hx, hfx⟩
  · rintro ⟨x, hx, hfx⟩
    obtain ⟨before, after, rfl⟩ := List.append_of_mem hx
    refine ⟨before ++ after ++ [x], ?_, ?_⟩
    · rw [List.append_assoc]
      exact (List.perm_append_singleton x after).append_left before
    · rw [List.map_append, List.map_singleton, ofPairs_concat, hfx, get?_put_self]

end Table

/-! ## Documents -/

namespace Json

variable {v : Json}

theorem members?_eq_some_iff {ms : List (String × Json)} :
    v.members? = some ms ↔ v = .obj ms := by
  cases v <;> simp [members?]

theorem float?_eq_some_iff {d : Float} : v.float? = some d ↔ ∃ n, v = .num n ∧ n.float = d := by
  cases v <;> simp [float?]

end Json

namespace Popularity

mutual

/-- The names and densities that a member lists. -/
def listedIn (k : String) : Json → List (String × Float)
  | .num n => [(k, n.float)]
  | .obj group => listed group
  | _ => []

/-- The names and densities that the members of a group list, in the order in which they stand. -/
def listed : List (String × Json) → List (String × Float)
  | [] => []
  | (k, v) :: ms => listedIn k v ++ listed ms

end

theorem eq_of_flattenMembers {ms : List (String × Json)} {t t' : Table Float}
    (h : flattenMembers ms t = .ok t') :
    t' = (listed ms).foldl (fun t p => t.put p.1 p.2) t := by
  fun_induction flattenMembers ms t generalizing t' with
  | case1 t =>
    rw [listed]
    exact (Except.ok.inj h).symm
  | case2 k n ms t ih =>
    rw [listed, listedIn]
    exact ih h
  | case3 k group ms t t₁ hgroup ihgroup ih =>
    rw [listed, listedIn, List.foldl_append, ← ihgroup hgroup]
    exact ih h
  | case4 | case5 => cases h

/-- The density that a text gives a name: the last one that it lists. -/
def Gives (s name : String) (d : Float) : Prop :=
  ∃ ms before after, Json.parse? s = some (.obj ms) ∧
    listed ms = before ++ (name, d) :: after ∧ ∀ e ∈ after, e.1 ≠ name

/-- A table that a text may read: its entries are put in lower case in some order. -/
def Reads (s : String) (p : Popularity) : Prop :=
  ∃ v t entries, Json.parse? s = some v ∧ flatten v [] = .ok t ∧ entries.Perm t ∧
    p = ofPairs entries

variable {s : String} {p : Popularity} {d : Float} {term : String}

/-- The entries of a text are the densities that it gives. -/
theorem exists_entries (h : ofText s = .ok p) : ∃ v t, Json.parse? s = some v ∧
    flatten v [] = .ok t ∧ p = ofPairs t ∧ ∀ name d, (name, d) ∈ t ↔ Gives s name d := by
  rw [ofText] at h
  cases hv : Json.parse? s with
  | none => simp [hv] at h
  | some v =>
    cases ht : flatten v [] with
    | error e => simp [hv, ht, Except.map] at h
    | ok t =>
      have hp : ofPairs t = p := by simpa [hv, ht, Except.map] using h
      refine ⟨v, t, rfl, ht, hp.symm, fun name d => ?_⟩
      obtain ⟨ms, rfl⟩ : ∃ ms, v = .obj ms := by
        cases v with
        | obj ms => exact ⟨ms, rfl⟩
        | _ => simp [flatten] at ht
      have heq : t = Table.ofPairs (listed ms) := by
        rw [flatten] at ht
        exact eq_of_flattenMembers ht
      rw [← Table.get?_eq_some_iff (heq ▸ Table.nodup_keys_ofPairs _), heq,
        Table.get?_ofPairs_eq_some_iff]
      constructor
      · rintro ⟨before, after, hlisted, hafter⟩
        exact ⟨ms, before, after, hv, hlisted, hafter⟩
      · rintro ⟨ms', before, after, hv', hlisted, hafter⟩
        obtain rfl : ms = ms' := by simpa [hv] using hv'
        exact ⟨before, after, hlisted, hafter⟩

/-- What a text reads is one of the tables that it may read. -/
theorem reads_of_ofText (h : ofText s = .ok p) : Reads s p := by
  obtain ⟨v, t, hv, ht, hp, -⟩ := exists_entries h
  exact ⟨v, t, t, hv, ht, .refl t, hp⟩

theorem density_eq_iff : p.density term = d ↔
    p.densities.get? term = some d ∨ p.densities.get? term = none ∧ d = defaultDensity := by
  rw [density]
  cases p.densities.get? term <;> simp [eq_comm]

/-- The densities that a term may have are those that the text gives the names which become the
term, and the default one if there are none. -/
theorem exists_reads_density_iff (h : ofText s = .ok p) (term : String) (d : Float) :
    (∃ q, Reads s q ∧ q.density term = d) ↔
      (∃ name, Text.lower name = term ∧ Gives s name d) ∨
        (∀ name d', Gives s name d' → Text.lower name ≠ term) ∧ d = defaultDensity := by
  obtain ⟨v, t, hv, ht, -, hgives⟩ := exists_entries h
  have hsome : (∃ entries : List (String × Float), entries.Perm t ∧
      (ofPairs entries).densities.get? term = some d) ↔
        ∃ name, Text.lower name = term ∧ Gives s name d := by
    refine Table.exists_perm_get?_iff.trans ?_
    simp only [Prod.exists, Prod.mk.injEq, hgives]
    constructor
    · rintro ⟨name, d', hgive, hlower, rfl⟩
      exact ⟨name, hlower, hgive⟩
    · rintro ⟨name, hlower, hgive⟩
      exact ⟨name, d, hgive, hlower, rfl⟩
  have hnone : ∀ entries : List (String × Float), entries.Perm t →
      ((ofPairs entries).densities.get? term = none ↔
        ∀ name d', Gives s name d' → Text.lower name ≠ term) := by
    intro entries hperm
    rw [ofPairs, Table.get?_ofPairs_eq_none_iff, List.forall_mem_map]
    simp only [Prod.forall, hperm.mem_iff, hgives]
  constructor
  · rintro ⟨q, ⟨v', t', entries, hv', ht', hperm, rfl⟩, hd⟩
    obtain rfl : v = v' := by simpa [hv] using hv'
    obtain rfl : t = t' := by simpa [ht] using ht'
    rcases density_eq_iff.mp hd with hget | ⟨hget, hdefault⟩
    · exact .inl (hsome.mp ⟨entries, hperm, hget⟩)
    · exact .inr ⟨(hnone entries hperm).mp hget, hdefault⟩
  · rintro (hgive | ⟨hall, hdefault⟩)
    · obtain ⟨entries, hperm, hget⟩ := hsome.mpr hgive
      exact ⟨_, ⟨v, t, entries, hv, ht, hperm, rfl⟩, density_eq_iff.mpr (.inl hget)⟩
    · exact ⟨_, ⟨v, t, t, hv, ht, .refl t, rfl⟩,
        density_eq_iff.mpr (.inr ⟨(hnone t (.refl t)).mpr hall, hdefault⟩)⟩

/-! ## Texts that determine their table -/

/-- The text gives names that become one term the same density. -/
def IsDetermined (s : String) : Prop :=
  ∀ name name' d d', Gives s name d → Gives s name' d' →
    Text.lower name = Text.lower name' → d = d'

theorem density_eq_of_isDetermined (h : ofText s = .ok p) (hs : IsDetermined s) {q r : Popularity}
    (hq : Reads s q) (hr : Reads s r) (term : String) : q.density term = r.density term := by
  have hq' := (exists_reads_density_iff h term _).mp ⟨q, hq, rfl⟩
  have hr' := (exists_reads_density_iff h term _).mp ⟨r, hr, rfl⟩
  rcases hq' with ⟨name, hlower, hgive⟩ | ⟨hall, hdefault⟩
  · rcases hr' with ⟨name', hlower', hgive'⟩ | ⟨hall, -⟩
    · exact hs name name' _ _ hgive hgive' (hlower.trans hlower'.symm)
    · exact absurd hlower (hall name _ hgive)
  · rcases hr' with ⟨name', hlower', hgive'⟩ | ⟨-, hdefault'⟩
    · exact absurd hlower' (hall name' _ hgive')
    · rw [hdefault, hdefault']

theorem isDetermined_of_density_eq (h : ofText s = .ok p)
    (hs : ∀ q r, Reads s q → Reads s r → ∀ term, q.density term = r.density term) :
    IsDetermined s := by
  intro name name' d d' hgive hgive' hlower
  obtain ⟨q, hq, hd⟩ := (exists_reads_density_iff h (Text.lower name) d).mpr
    (.inl ⟨name, rfl, hgive⟩)
  obtain ⟨r, hr, hd'⟩ := (exists_reads_density_iff h (Text.lower name) d').mpr
    (.inl ⟨name', hlower.symm, hgive'⟩)
  rw [← hd, ← hd', hs q r hq hr]

end Popularity

/-! ## Calls -/

/-- The calls depend on the densities of terms alone. -/
theorem optimize_congr {p q : Popularity} (h : ∀ term, p.density term = q.density term)
    (clauses : List Clause) : optimize clauses (some p) = optimize clauses (some q) := by
  have hdensity : Optimize.density (some p) = Optimize.density (some q) := by
    funext c
    rcases hterms : c.included with _ | ⟨t, ts⟩
    · simp [Optimize.density, hterms]
    · simp [Optimize.density, hterms, h]
  simp only [optimize, Optimize.byDensity, hdensity]

/-- Of two single categories the more popular one is called for first. -/
theorem included_optimize_pair (p : Popularity) (a b : String) :
    (optimize [⟨[.category a], []⟩, ⟨[.category b], []⟩] (some p)).map (·.included) =
      if Decimal.rank (p.density b) ≤ Decimal.rank (p.density a) then [[a], [b]]
      else [[b], [a]] := by
  have hsort : Optimize.byDensity (some p) [⟨[.category a], []⟩, ⟨[.category b], []⟩] =
      if Decimal.rank (p.density b) ≤ Decimal.rank (p.density a) then
        [⟨[.category a], []⟩, ⟨[.category b], []⟩]
      else [⟨[.category b], []⟩, ⟨[.category a], []⟩] := by
    have htext : ∀ t, (Term.category t).text = t := fun _ => rfl
    simp [Optimize.byDensity, Optimize.density, htext, List.mergeSort,
      List.MergeSort.Internal.splitInTwo, List.merge]
  have hsingle : [⟨[.category a], []⟩, ⟨[.category b], []⟩].filter Optimize.isPositive =
      [⟨[.category a], []⟩, ⟨[.category b], []⟩] := rfl
  simp only [optimize, hsingle, hsort]
  split <;> rfl

namespace Popularity

variable {s : String} {p : Popularity}

/-- A text that is accepted reads a table, and may read others where its entries come in another
order: a term has one of the densities that the text gives the names which become the term.  All
orders give the same densities exactly if such names have one density; and then they give the same
calls for all clauses. -/
theorem reads_agree_iff (h : ofText s = .ok p) :
    Reads s p ∧
      (∀ term d, (∃ q, Reads s q ∧ q.density term = d) ↔
        (∃ name, Text.lower name = term ∧ Gives s name d) ∨
          (∀ name d', Gives s name d' → Text.lower name ≠ term) ∧ d = defaultDensity) ∧
      ((∀ q r, Reads s q → Reads s r → ∀ term, q.density term = r.density term) ↔
        IsDetermined s) ∧
      (IsDetermined s → ∀ q r, Reads s q → Reads s r →
        ∀ clauses, optimize clauses (some q) = optimize clauses (some r)) :=
  ⟨reads_of_ofText h, exists_reads_density_iff h,
    ⟨isDetermined_of_density_eq h, fun hs _ _ hq hr => density_eq_of_isDetermined h hs hq hr⟩,
    fun hs _ _ hq hr => optimize_congr (density_eq_of_isDetermined h hs hq hr)⟩

set_option synthInstance.maxSize 256 in
/-- Two groups spell one category in two ways, so that it is called for before another category, or
after it. -/
theorem reads_agree_iff_of_two_spellings :
    let s := "\x7b\"a\": \x7b\"cafe\": 2\x7d, \"b\": \x7b\"Cafe\": 0\x7d\x7d"
    let clauses : List Clause := [⟨[.category "cafe"], []⟩, ⟨[.category "bar"], []⟩]
    ∃ p q, ofText s = .ok p ∧ Reads s q ∧ p.density "cafe" = 0.0 ∧ q.density "cafe" = 2.0 ∧
      ¬IsDetermined s ∧
      (optimize clauses (some p)).map (·.included) = [["bar"], ["cafe"]] ∧
      (optimize clauses (some q)).map (·.included) = [["cafe"], ["bar"]] := by
  intro s clauses
  -- Documents have no decidable equality, so that the text is compared by its names and numbers.
  have hshape : ((Json.parse? s).bind (·.members?)).map (·.map fun group =>
      (group.1, group.2.members?.map (·.map fun m => (m.1, m.2.float?)))) =
        some [("a", some [("cafe", some 2.0)]), ("b", some [("Cafe", some 0.0)])] := by
    decide +kernel
  obtain ⟨v, hparse, hflatten⟩ : ∃ v, Json.parse? s = some v ∧
      flatten v [] = .ok [("cafe", 2.0), ("Cafe", 0.0)] := by
    simp only [Option.map_eq_some_iff, Option.bind_eq_some_iff, List.map_eq_cons_iff,
      List.map_eq_nil_iff, Prod.mk.injEq, Json.members?_eq_some_iff,
      Json.float?_eq_some_iff] at hshape
    obtain ⟨_, ⟨v, hparse, rfl⟩, ⟨_, g⟩, _, rfl, ⟨rfl, ms, rfl, hms⟩,
      ⟨_, g'⟩, _, rfl, ⟨rfl, ms', rfl, hms'⟩, rfl⟩ := hshape
    obtain ⟨⟨_, x⟩, _, rfl, ⟨rfl, n, rfl, hn⟩, rfl⟩ := hms
    obtain ⟨⟨_, x'⟩, _, rfl, ⟨rfl, n', rfl, hn'⟩, rfl⟩ := hms'
    exact ⟨_, hparse, by simp [flatten, flattenMembers, Table.put, hn, hn']⟩
  have hp : ofText s = .ok (ofPairs [("cafe", 2.0), ("Cafe", 0.0)]) := by
    rw [ofText, hparse]
    simp only [hflatten, Except.map]
  have hq : Reads s (ofPairs [("Cafe", 0.0), ("cafe", 2.0)]) :=
    ⟨_, _, _, hparse, hflatten, .swap _ _ _, rfl⟩
  have hp0 : (ofPairs [("cafe", 2.0), ("Cafe", 0.0)]).density "cafe" = 0.0 := by decide +kernel
  have hq2 : (ofPairs [("Cafe", 0.0), ("cafe", 2.0)]).density "cafe" = 2.0 := by decide +kernel
  obtain ⟨hreads, -, hiff, -⟩ := reads_agree_iff hp
  refine ⟨_, _, hp, hq, hp0, hq2, fun hs => ?_, ?_, ?_⟩
  · have heq := hiff.mpr hs _ _ hreads hq "cafe"
    rw [hp0, hq2] at heq
    exact absurd heq (by decide +kernel)
  · rw [included_optimize_pair, if_neg (by decide +kernel)]
  · rw [included_optimize_pair, if_pos (by decide +kernel)]

end Popularity

end PlaceSearch
