import PlaceSearch.Plan.Basic
import PlaceSearch.Proofs.Walk.ResumeToken

/-!
# The names of plans

The plan of a query in a city is found by a name that joins the query, the country and the city by
underscores.  The three texts may hold underscores themselves.  A text with one can be cut there,
and the rest of it counted to the next text, so that another request has the same name.  If
countries and cities hold none, the last two underscores of a name tell where its texts end.
-/

namespace PlaceSearch

/-- The texts that a plan is asked for by. -/
@[ext]
structure PlanRequest where
  query : String
  country : String
  city : String
deriving DecidableEq, Repr

namespace PlanRequest

/-- The name of the plan that is asked for. -/
def name (r : PlanRequest) : String :=
  planName r.query r.country r.city

/-- The number of underscores in the three texts. -/
def underscores (r : PlanRequest) : Nat :=
  r.query.toList.count '_' + r.country.toList.count '_' + r.city.toList.count '_'

variable {r r' : PlanRequest}

theorem count_name (r : PlanRequest) : r.name.toList.count '_' = 3 + r.underscores := by
  simp only [name, planName, underscores, String.toList_append, List.count_append]
  have hplan : "plan_".toList.count '_' = 1 := by decide
  have hglue : "_".toList.count '_' = 1 := by decide
  rw [hplan, hglue]
  omega

theorem underscores_eq_zero_iff : r.underscores = 0 ↔
    '_' ∉ r.query.toList ∧ '_' ∉ r.country.toList ∧ '_' ∉ r.city.toList := by
  simp only [underscores, Nat.add_eq_zero_iff, List.count_eq_zero, and_assoc]

/-- The last underscore of a text tells what stands before and after it. -/
theorem eq_of_append_eq {before before' after after' : String} (hafter : '_' ∉ after.toList)
    (hafter' : '_' ∉ after'.toList) (h : before ++ "_" ++ after = before' ++ "_" ++ after') :
    before = before' ∧ after = after' := by
  have hsplit : ∀ {before after : String}, '_' ∉ after.toList →
      Text.splitLast? ['_'] (before ++ "_" ++ after).toList =
        some (before.toList, after.toList) := by
    intro before after hafter
    rw [String.toList_append, String.toList_append]
    exact Text.splitLast?_append List.not_mem_nil hafter before.toList
  have hboth := (hsplit hafter).symm.trans ((congrArg _ (congrArg _ h)).trans (hsplit hafter'))
  obtain ⟨hbefore, hafter⟩ := Prod.mk.inj (Option.some.inj hboth)
  exact ⟨String.toList_inj.mp hbefore, String.toList_inj.mp hafter⟩

/-- If countries and cities hold no underscores, then plans of different requests have different
names. -/
theorem eq_of_name_eq (hcountry : '_' ∉ r.country.toList) (hcity : '_' ∉ r.city.toList)
    (hcountry' : '_' ∉ r'.country.toList) (hcity' : '_' ∉ r'.city.toList)
    (h : r.name = r'.name) : r = r' := by
  obtain ⟨hrest, hcities⟩ := eq_of_append_eq hcity hcity' h
  obtain ⟨hqueries, hcountries⟩ := eq_of_append_eq hcountry hcountry' hrest
  exact PlanRequest.ext (by simpa using hqueries) hcountries hcities

theorem exists_append_of_mem {s : String} (h : '_' ∈ s.toList) : ∃ a b, s = a ++ "_" ++ b := by
  obtain ⟨before, after, hs⟩ := List.append_of_mem h
  refine ⟨String.ofList before, String.ofList after, String.toList_inj.mp ?_⟩
  rw [hs]
  simp

theorem append_ne_right (a b : String) : a ++ "_" ++ b ≠ b := by
  intro h
  have hlength := congrArg String.length h
  simp only [String.length_append] at hlength
  have hglue : "_".length = 1 := by decide
  omega

theorem append_ne_left (a b : String) : a ++ "_" ++ b ≠ a := by
  intro h
  have hlength := congrArg String.length h
  simp only [String.length_append] at hlength
  have hglue : "_".length = 1 := by decide
  omega

/-- A request shares the name of its plan with another one if one of its texts holds an underscore,
and only then. -/
theorem exists_ne_name_eq_iff : (∃ other, other ≠ r ∧ other.name = r.name) ↔
    '_' ∈ r.query.toList ∨ '_' ∈ r.country.toList ∨ '_' ∈ r.city.toList := by
  constructor
  · rintro ⟨other, hne, hname⟩
    refine Decidable.byContradiction fun hnone => ?_
    simp only [not_or] at hnone
    obtain ⟨hquery, hcountry, hcity⟩ := hnone
    -- The names have the same number of underscores, so the texts of the other one hold none.
    have hcount := congrArg (List.count '_' ∘ String.toList) hname
    simp only [Function.comp, count_name, underscores_eq_zero_iff.mpr ⟨hquery, hcountry, hcity⟩]
      at hcount
    obtain ⟨-, hcountry', hcity'⟩ := underscores_eq_zero_iff.mp (Nat.add_left_cancel hcount)
    exact hne (eq_of_name_eq hcountry' hcity' hcountry hcity hname)
  · obtain ⟨query, country, city⟩ := r
    rintro (h | h | h) <;> obtain ⟨a, b, rfl⟩ := exists_append_of_mem h
    · refine ⟨⟨a, b, country ++ "_" ++ city⟩, fun heq => ?_, ?_⟩
      · exact append_ne_right country city (congrArg PlanRequest.city heq)
      · simp [name, planName, String.append_assoc]
    · refine ⟨⟨query, a, b ++ "_" ++ city⟩, fun heq => ?_, ?_⟩
      · exact append_ne_right b city (congrArg PlanRequest.city heq)
      · simp [name, planName, String.append_assoc]
    · refine ⟨⟨query ++ "_" ++ country, a, b⟩, fun heq => ?_, ?_⟩
      · exact append_ne_left query country (congrArg PlanRequest.query heq)
      · simp [name, planName, String.append_assoc]

end PlanRequest

end PlaceSearch
