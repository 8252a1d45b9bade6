import PlaceSearch.Plan.Basic
import PlaceSearch.Proofs.Text.Find

/-!
# Marked rows

A row that is to be searched reads, once it is marked as passed over, as a row of the same level
that is passed over.  So the rows of a plan and what they say stay in step.
-/

namespace PlaceSearch.PlanEntry

theorem levelBelow_iff {lower upper : String} : levelBelow lower upper = true ↔
    upper ≠ "" ∧ ∃ rest, lower.toList = upper.toList ++ '.' :: rest := by
  simp only [levelBelow, ← Text.startsWith?_eq_some_iff, Bool.and_eq_true]
  refine and_congr (by simp) ?_
  split <;> simp_all

@[simp] theorem levelBelow_self (level : String) : levelBelow level level = false := by
  rw [Bool.eq_false_iff]
  intro h
  obtain ⟨-, rest, hrest⟩ := levelBelow_iff.mp h
  simp at hrest

/-- A run of level characters ends at an underscore. -/
theorem takeWhile_isLevelChar_append (cs ys : List Char) :
    (cs ++ '_' :: ys).takeWhile isLevelChar = cs.takeWhile isLevelChar := by
  have hbar : isLevelChar '_' = false := by decide
  induction cs with
  | nil => simp [hbar]
  | cons c cs ih => simp only [List.cons_append, List.takeWhile_cons, ih]

/-- The level found in a text is not changed by what follows an underscore. -/
theorem levelRun?_append {cs run : List Char} (h : levelRun? cs = some run) (ys : List Char) :
    levelRun? (cs ++ '_' :: ys) = some run := by
  induction cs with
  | nil => simp [levelRun?] at h
  | cons c cs ih =>
    rw [levelRun?] at h
    rw [List.cons_append, levelRun?]
    split at h
    · -- The text begins with the word that introduces the level.
      rename_i d ds hstart
      have hstart' : Text.startsWith? "circle=".toList (c :: (cs ++ '_' :: ys)) =
          some (d :: (ds ++ '_' :: ys)) := by
        rw [Text.startsWith?_eq_some_iff] at hstart ⊢
        rw [← List.cons_append, hstart]
        simp
      rw [hstart']
      simp only
      split at h
      · rename_i hd
        rw [if_pos hd, ← h, takeWhile_isLevelChar_append]
      · rename_i hd
        rw [if_neg hd]
        exact ih h
    · rename_i hstart
      split
      · -- The word is complete only with the underscore, which is in no level.
        rename_i d ds hstart'
        rw [Text.startsWith?_eq_some_iff, ← List.cons_append] at hstart'
        have hd : d = '_' := by
          have hprefix : "circle=".toList <+: c :: cs :=
            Text.prefix_of_prefix_append_cons (by decide) ⟨_, hstart'.symm⟩
          obtain ⟨r, hr⟩ := hprefix
          rw [← hr, List.append_assoc] at hstart'
          have hrest := List.append_cancel_left hstart'
          cases r with
          | nil => exact (List.cons.inj hrest).1.symm
          | cons d' r =>
            exact absurd (Text.startsWith?_eq_some_iff.mpr hr.symm) (hstart d' r)
        rw [hd, if_neg (by decide)]
        exact ih h
      · exact ih h

theorem levelOf?_append {row level : String} (h : levelOf? row = some level) (ys : List Char) :
    levelOf? (String.ofList (row.toList ++ '_' :: ys)) = some level := by
  rw [levelOf?] at h ⊢
  cases hrun : levelRun? row.toList with
  | none => simp [hrun] at h
  | some run =>
    rw [String.toList_ofList, levelRun?_append hrun]
    rw [hrun] at h
    exact h

theorem ofRow_eq_finish_iff {row : String} :
    ofRow row = .ok .finish ↔ Text.occurs endMarker.toList row.toList = true := by
  rw [ofRow]
  constructor
  · intro h
    by_contra hend
    rw [if_neg hend] at h
    repeat' split at h
    all_goals simp at h
  · intro h
    rw [if_pos h]

/-- What the row of a circle holds, and what it does not. -/
theorem of_ofRow_eq_circle {row level : String} {c : Circle}
    (h : ofRow row = .ok (.circle level c)) :
    Text.occurs endMarker.toList row.toList = false ∧
      Text.occurs skipMarker.toList row.toList = false ∧ levelOf? row = some level := by
  rw [ofRow] at h
  repeat' split at h
  all_goals simp_all

/-- A row that is to be searched reads, once it is marked, as a row of its level that is passed
over. -/
theorem ofRow_marked {row level : String} {c : Circle} (h : ofRow row = .ok (.circle level c)) :
    ofRow (row ++ "_" ++ skipMarker) = .ok (.skip level) := by
  obtain ⟨hend, -, hlevel⟩ := of_ofRow_eq_circle h
  have htext : row ++ "_" ++ skipMarker =
      String.ofList (row.toList ++ '_' :: skipMarker.toList) := by
    rw [← String.toList_inj, String.toList_ofList, String.toList_append, String.toList_append]
    simp
  have hend' : Text.occurs endMarker.toList (row.toList ++ '_' :: skipMarker.toList) = false := by
    rw [Bool.eq_false_iff]
    intro hoccurs
    rcases Text.occurs_append_cons (by decide) hoccurs with h | h
    · rw [hend] at h
      cases h
    · exact absurd h (by decide)
  have hskip : Text.occurs skipMarker.toList (row.toList ++ '_' :: skipMarker.toList) = true := by
    rw [Text.occurs_iff]
    exact ⟨row.toList ++ ['_'], [], by simp⟩
  rw [htext, ofRow, String.toList_ofList, hend', hskip, levelOf?_append hlevel]
  rfl

end PlaceSearch.PlanEntry
