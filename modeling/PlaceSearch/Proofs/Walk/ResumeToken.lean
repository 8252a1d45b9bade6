import PlaceSearch.Proofs.Decimal.Fixed
import PlaceSearch.Proofs.Text.Trim
import PlaceSearch.Walk.ResumeToken

/-!
# Tokens given back

The text of a token ends with the number of its row, whatever signs its cursor has.  So a token that
is given back names the row that it was made for, if it can be read at all: rows beyond the largest
one are refused.

Reading a token trims it first.  What stands in front of the row keeps all its signs but the blanks
that a cursor begins with, so those cursors, and no others, come back changed.  A token that was
read has no such cursor.
-/

namespace PlaceSearch

namespace Text

variable {ps after cs : List Char} {a c : Char}

theorem isBlank_of_isDigit (h : c.isDigit = true) : isBlank c = false := by
  have hall : blanks.all fun c => !c.isDigit := by decide
  rw [← Bool.not_eq_true]
  intro hblank
  have hout := List.all_eq_true.mp hall c (mem_blanks hblank)
  rw [h] at hout
  cases hout

theorem splitLast?_eq_none (h : a ∉ cs) : splitLast? (a :: ps) cs = none := by
  induction cs with
  | nil => rfl
  | cons c cs ih =>
    obtain ⟨hc, hcs⟩ := not_or.mp (mt List.mem_cons.mpr h)
    rw [splitLast?, ih hcs, startsWith?, if_neg hc]
    rfl

theorem eq_append_of_splitLast? {before : List Char} (h : splitLast? ps cs = some (before, after)) :
    cs = before ++ ps ++ after := by
  induction cs generalizing before with
  | nil => cases h
  | cons c cs ih =>
    rw [splitLast?] at h
    split at h
    · next before' after' hsplit =>
      obtain ⟨rfl, rfl⟩ := Prod.mk.inj (Option.some.inj h)
      rw [ih hsplit, List.cons_append, List.cons_append]
    · obtain ⟨after', hstart, hpair⟩ := Option.map_eq_some_iff.mp h
      obtain ⟨rfl, rfl⟩ := Prod.mk.inj hpair
      exact startsWith?_eq_some_iff.mp hstart

/-- A text is split at a separator whose first sign does not come again. -/
theorem splitLast?_append (hps : a ∉ ps) (hafter : a ∉ after) (before : List Char) :
    splitLast? (a :: ps) (before ++ (a :: ps) ++ after) = some (before, after) := by
  induction before with
  | nil =>
    have hrest : a ∉ ps ++ after := by
      simp only [List.mem_append, not_or]
      exact ⟨hps, hafter⟩
    rw [List.nil_append, List.cons_append, splitLast?, splitLast?_eq_none hrest]
    simp only [Option.map_eq_some_iff, startsWith?_eq_some_iff]
    exact ⟨after, rfl, rfl⟩
  | cons b before ih => rw [List.cons_append, List.cons_append, splitLast?, ih]

/-- A text that does not begin with a blank has none in front. -/
theorem trimStart_eq_self_iff : trimStart cs = cs ↔ ∀ c ∈ cs.head?, isBlank c = false := by
  constructor
  · intro h
    obtain ⟨-, -, -, hhead⟩ := exists_trimStart cs
    rwa [h] at hhead
  · intro h
    have hnone : ∀ b ∈ ([] : List Char), isBlank b = true := nofun
    exact trimStart_append hnone h

end Text

theorem Decimal.value?_digits (n : Nat) : value? (digits n) = some n := by
  have hall : (digits n).all Char.isDigit = true :=
    List.all_eq_true.mpr fun _ => isDigit_of_mem_digits
  have hvalue : valueFrom 0 (digits n) = n :=
    Nat.ofDigitChars_toDigits (by decide) (by decide)
  rw [value?, hall, hvalue, digits]
  simp

namespace ResumeToken

/-- A number with more digits than a row may have is refused. -/
theorem row?_digits (n : Nat) : row? (Decimal.digits n) = (some n).filter (· ≤ maxRow) := by
  rw [row?, Decimal.value?_digits]
  intro ds hplus
  have h : '+' ∈ Decimal.digits n := hplus ▸ List.mem_cons_self
  exact absurd (Decimal.isDigit_of_mem_digits h) (by decide)

theorem le_maxRow_of_row? {cs : List Char} {row : Nat} (h : row? cs = some row) :
    row ≤ maxRow :=
  of_decide_eq_true (Option.filter_eq_some_iff.mp h).2

/-! ## Cursors -/

theorem row_of (cursor : Option String) (row : Nat) : (of cursor row).row = row :=
  rfl

theorem getD_cursor_of (cursor : Option String) (row : Nat) :
    (of cursor row).cursor.getD "" = cursor.getD "" := by
  cases cursor with
  | none => rfl
  | some s => by_cases hs : s = "" <;> simp [of, Option.filter, hs]

/-- No cursor and the empty one make the same token. -/
theorem of_eq_of_iff {cursor cursor' : Option String} {row row' : Nat} :
    of cursor row = of cursor' row' ↔ cursor.getD "" = cursor'.getD "" ∧ row = row' := by
  constructor
  · intro h
    refine ⟨?_, congrArg ResumeToken.row h⟩
    rw [← getD_cursor_of cursor row, h, getD_cursor_of]
  · rintro ⟨hcursor, rfl⟩
    have hfilter : ∀ c : Option String,
        c.filter (!·.isEmpty) = (some (c.getD "")).filter (!·.isEmpty) := by
      intro c
      cases c <;> rfl
    rw [of, of, hfilter, hcursor, ← hfilter]

theorem of_cursor (cursor : Option String) (row : Nat) :
    of (of cursor row).cursor row = of cursor row :=
  of_eq_of_iff.mpr ⟨getD_cursor_of cursor row, rfl⟩

/-! ## Reading the text of a token -/

/-- Trimmed, the text of a token stays but for the blanks that its cursor begins with. -/
theorem trim_encode (t : ResumeToken) :
    (Text.trim t.encode).toList =
      Text.trimStart (t.cursor.getD "").toList ++ separator.toList ++ Decimal.digits t.row := by
  obtain ⟨blanks, hblanks, hcursor, hhead⟩ := Text.exists_trimStart (t.cursor.getD "").toList
  let cursor := Text.trimStart (t.cursor.getD "").toList
  have hsplit : t.encode =
      String.ofList (blanks ++ (cursor ++ separator.toList ++ Decimal.digits t.row) ++ []) := by
    rw [← String.toList_inj, String.toList_ofList, encode, String.toList_append,
      String.toList_append, hcursor]
    simp [cursor, Decimal.digits]
  have htrimmed : Text.IsTrimmed (cursor ++ separator.toList ++ Decimal.digits t.row) := by
    constructor
    · intro c hc
      cases hcs : cursor with
      | nil =>
        rw [hcs] at hc
        obtain rfl : '@' = c := by simpa [separator] using hc
        decide
      | cons b cs =>
        rw [hcs] at hc
        obtain rfl : b = c := by simpa using hc
        exact hhead b (by simp [cursor] at hcs; simp [hcs])
    · intro c hc
      obtain ⟨ds, d, hds⟩ : ∃ ds d, Decimal.digits t.row = ds ++ [d] :=
        ⟨_, _, (List.dropLast_concat_getLast Nat.toDigits_ne_nil).symm⟩
      have hlast : d = c := by
        rw [hds, ← List.append_assoc] at hc
        simpa using hc
      have hdigit : c.isDigit = true :=
        Decimal.isDigit_of_mem_digits (n := t.row) (by rw [hds, hlast]; simp)
      exact Text.isBlank_of_isDigit hdigit
  rw [hsplit, Text.trim_eq_of_isTrimmed htrimmed hblanks (by simp), String.toList_ofList]

/-- The text of a token reads its row, if this is no larger than a row may be, and its cursor
without the blanks in front. -/
theorem decode_encode (t : ResumeToken) :
    decode (some t.encode) =
      if t.row ≤ maxRow then
        .ok (of (some (String.ofList (Text.trimStart (t.cursor.getD "").toList))) t.row)
      else .error (.token (String.ofList (Decimal.digits t.row))) := by
  have hsplit : Text.splitLast? separator.toList (Text.trim t.encode).toList =
      some (Text.trimStart (t.cursor.getD "").toList, Decimal.digits t.row) := by
    rw [trim_encode]
    refine Text.splitLast?_append (by decide) (fun hmem => ?_) _
    exact absurd (Decimal.isDigit_of_mem_digits hmem) (by decide)
  have hne : (Text.trim t.encode).isEmpty = false := by
    rw [Bool.eq_false_iff, ne_eq, String.isEmpty_iff, ← String.toList_inj, trim_encode]
    simp [separator]
  rw [decode, Option.getD_some]
  simp only [hne, hsplit, row?_digits]
  by_cases hrow : t.row ≤ maxRow <;> simp [Option.filter, hrow]

/-- A token that is given back names its row, if it can be read. -/
theorem row_of_decode_encode {t t' : ResumeToken} (h : decode (some t.encode) = .ok t') :
    t'.row = t.row := by
  rw [decode_encode] at h
  split at h
  · exact Except.ok.inj h ▸ rfl
  · cases h

/-- What was read is a token whose cursor does not begin with a blank. -/
theorem spec_of_decode {text : Option String} {t : ResumeToken} (h : decode text = .ok t) :
    t.row ≤ maxRow ∧ of t.cursor t.row = t ∧
      ∀ c ∈ (t.cursor.getD "").toList.head?, Text.isBlank c = false := by
  have htrimmed := (Text.isTrimmed_trim (text.getD "")).head
  rw [decode] at h
  split at h
  · obtain rfl := Except.ok.inj h
    exact ⟨Nat.zero_le _, rfl, nofun⟩
  · split at h
    · obtain rfl := Except.ok.inj h
      refine ⟨Nat.zero_le _, of_cursor _ 0, ?_⟩
      rw [getD_cursor_of]
      exact htrimmed
    · next cursor index hsplit =>
      split at h
      · next row hrow =>
        obtain rfl := Except.ok.inj h
        refine ⟨le_maxRow_of_row? hrow, of_cursor _ row, ?_⟩
        intro c hc
        rw [getD_cursor_of, Option.getD_some, String.toList_ofList] at hc
        refine htrimmed c ?_
        rw [Text.eq_append_of_splitLast? hsplit, List.append_assoc, List.head?_append,
          Option.mem_def.mp hc]
        rfl
      · cases h

/-- A token is read as it was made iff its cursor does not begin with a blank. -/
theorem decode_encode_of_eq_iff (cursor : Option String) {row : Nat} (hrow : row ≤ maxRow) :
    decode (some (of cursor row).encode) = .ok (of cursor row) ↔
      ∀ c ∈ (cursor.getD "").toList.head?, Text.isBlank c = false := by
  have hdecode := decode_encode (of cursor row)
  rw [row_of, if_pos hrow, getD_cursor_of] at hdecode
  rw [hdecode, Except.ok.injEq, of_eq_of_iff, Option.getD_some, ← String.toList_inj,
    String.toList_ofList, Text.trimStart_eq_self_iff]
  exact and_iff_left rfl

/-- A token that is given back is read as it was made iff its cursor does not begin with a blank;
and what was read settles: its text reads the same token again. -/
theorem reads_back_iff (cursor : Option String) {row : Nat} (hrow : row ≤ maxRow) :
    (decode (some (of cursor row).encode) = .ok (of cursor row) ↔
        ∀ c ∈ (cursor.getD "").toList.head?, Text.isBlank c = false) ∧
      ∀ (text : Option String) (t : ResumeToken), decode text = .ok t →
        decode (some t.encode) = .ok t := by
  refine ⟨decode_encode_of_eq_iff cursor hrow, fun text t h => ?_⟩
  obtain ⟨hrow', hof, hhead⟩ := spec_of_decode h
  rw [← hof]
  exact (decode_encode_of_eq_iff t.cursor hrow').mpr hhead

/-- A cursor with a separator and blanks within, and a text between blanks whose row has a sign. -/
theorem reads_back_iff_of_separators :
    decode (some (of (some "a@#$ b@#") 7).encode) = .ok (of (some "a@#$ b@#") 7) ∧
      decode (some " a@#$b@#$+12\n") = .ok ⟨some "a@#$b", 12⟩ ∧
        decode (some (⟨some "a@#$b", 12⟩ : ResumeToken).encode) = .ok ⟨some "a@#$b", 12⟩ := by
  have hread : decode (some " a@#$b@#$+12\n") = .ok ⟨some "a@#$b", 12⟩ := rfl
  have hrow : 7 ≤ maxRow := by decide
  obtain ⟨hback, hsettled⟩ := reads_back_iff (some "a@#$ b@#") hrow
  refine ⟨hback.mpr ?_, hread, hsettled _ _ hread⟩
  intro c hc
  obtain rfl : 'a' = c := Option.some.inj hc
  decide

/-- Blanks in front of a cursor are lost. -/
example : decode (some (of (some " next") 5).encode) = .ok (of (some "next") 5) :=
  rfl

end ResumeToken

end PlaceSearch
