import PlaceSearch.Decimal.Shortest
import PlaceSearch.Proofs.Plan.Generate
import PlaceSearch.Proofs.Plan.Tree

/-!
# Reading the rows that are written

A row is written for every circle, but it is read only if the numbers of the circle are finite and
its radius is written without a minus sign.  Halving keeps the sign, so that for the radii of a plan
only the first circle matters.
-/

namespace PlaceSearch

/-! ## The texts of numbers -/

namespace Decimal

/-- Digits, a point and digits. -/
def IsNumberText (cs : List Char) : Prop :=
  ∃ whole places, cs = whole ++ '.' :: places ∧ whole ≠ [] ∧ places ≠ [] ∧
    (∀ c ∈ whole, c.isDigit = true) ∧ ∀ c ∈ places, c.isDigit = true

theorem isNumberText_placed {places : Nat} (hplaces : 0 < places) (n : Nat) :
    IsNumberText (placed places n) := by
  have hne : padLeft places (digits (n % tenPow places)) ≠ [] := by
    rw [← List.length_pos_iff, length_padLeft]
    omega
  rw [placed, if_neg (Nat.ne_of_gt hplaces)]
  exact ⟨_, _, rfl, Nat.toDigits_ne_nil, hne, fun _ => isDigit_of_mem_digits,
    fun _ => isDigit_of_mem_padLeft fun _ => isDigit_of_mem_digits⟩

theorem IsNumberText.exists_cons {cs : List Char} (h : IsNumberText cs) :
    ∃ d ds, cs = d :: ds ∧ d ≠ '-' ∧ d ≠ '+' := by
  obtain ⟨whole, places, rfl, hwhole, -, hdigits, -⟩ := h
  obtain ⟨d, ds, rfl⟩ := List.exists_cons_of_ne_nil hwhole
  have hd := hdigits d List.mem_cons_self
  refine ⟨d, ds ++ '.' :: places, rfl, ?_, ?_⟩
  · rintro rfl
    exact absurd hd (by decide)
  · rintro rfl
    exact absurd hd (by decide)

/-- A finite number is written as its sign and digits. -/
theorem exists_toList_fixed {x : Float} {b : Binary} (h : reading x = .finite b) {places : Nat}
    (hplaces : 0 < places) :
    ∃ cs, IsNumberText cs ∧ (fixed places x).toList = signText b.negative ++ cs := by
  have htext : (fixed places x).toList = signText b.negative ++
      placed places (roundHalfEven (b.quotient.1 * tenPow places) b.quotient.2) := by
    simp only [fixed, h, String.toList_ofList]
    rfl
  exact ⟨_, isNumberText_placed hplaces _, htext⟩

/-- Any other number is written as a word. -/
theorem toList_fixed_of_not_isFinite {x : Float} (h : isFinite x = false) (places : Nat) :
    (fixed places x).toList = "-inf".toList ∨ (fixed places x).toList = "inf".toList ∨
      (fixed places x).toList = "NaN".toList := by
  rw [isFinite] at h
  split at h
  · cases h
  · rename_i hnone
    cases hx : reading x with
    | finite b => exact absurd hx (hnone b)
    | infinite negative => cases negative <;> simp [fixed, hx]
    | notANumber => simp [fixed, hx]

theorem unsigned?_isSome {cs : List Char} (h : IsNumberText cs) : ∃ x, unsigned? cs = some x := by
  obtain ⟨whole, places, rfl, hwhole, -, hdigits, hdigits'⟩ := h
  have htake : (whole ++ '.' :: places).takeWhile Char.isDigit = whole := by
    rw [List.takeWhile_append_of_pos hdigits, List.takeWhile_cons_of_neg (by decide),
      List.append_nil]
  have hdrop : (whole ++ '.' :: places).dropWhile Char.isDigit = '.' :: places := by
    rw [List.dropWhile_append_of_pos hdigits, List.dropWhile_cons_of_neg (by decide)]
  have htake' : places.takeWhile Char.isDigit = places := by simpa using hdigits'
  have hdrop' : places.dropWhile Char.isDigit = [] := by simpa using hdigits'
  rw [← Option.isSome_iff_exists, unsigned?, htake, hdrop]
  simp [htake', hdrop', hwhole]

/-- Such a text with a sign can be read. -/
theorem exists_parse? {cs : List Char} (h : IsNumberText cs) (negative : Bool) :
    ∃ x, parse? (signText negative ++ cs) = some x := by
  obtain ⟨x, hx⟩ := unsigned?_isSome h
  cases negative with
  | true => exact ⟨-x, by simp [parse?, signText, hx]⟩
  | false =>
    obtain ⟨d, ds, rfl, hminus, hplus⟩ := h.exists_cons
    refine ⟨x, ?_⟩
    simp only [parse?, signText, Bool.false_eq_true, if_false, List.nil_append]
    split
    · next heq => exact absurd (List.cons.inj heq).1 hminus
    · next heq => exact absurd (List.cons.inj heq).1 hplus
    · rw [hx]
      rfl

theorem isFinite_iff {x : Float} : isFinite x = true ↔ ∃ b, reading x = .finite b := by
  rw [isFinite]
  cases reading x <;> simp

/-- Whether the number is finite and has no minus sign. -/
def isUnsigned (x : Float) : Bool :=
  match reading x with
  | .finite b => !b.negative
  | _ => false

theorem isUnsigned_iff {x : Float} :
    isUnsigned x = true ↔ ∃ b, reading x = .finite b ∧ b.negative = false := by
  rw [isUnsigned]
  cases reading x <;> simp

/-- The finite numbers without a minus sign are those whose bits lie below those of infinity. -/
theorem isUnsigned_iff_bits {x : Float} : isUnsigned x = true ↔ bits x < infinityBits := by
  have hlt : bits x < 2 ^ 64 := x.toBits.toNat_lt
  rw [isUnsigned, reading, ← bits]
  by_cases hbiased : bits x / twoPow 52 % twoPow 11 = 2047
  · -- The number is infinite, or it is none.
    have hnot : ¬bits x < infinityBits := by
      have hbiased' : bits x / 2 ^ 52 % 2 ^ 11 = 2047 := hbiased
      rw [infinityBits]
      omega
    simp only [if_pos hbiased]
    by_cases hfraction : bits x % twoPow 52 = 0
    · simp [if_pos hfraction, hnot]
    · simp [if_neg hfraction, hnot]
  · have hsign : ¬bits x / twoPow 63 = 1 ↔ bits x < infinityBits := by
      have hbiased' : bits x / 2 ^ 52 % 2 ^ 11 ≠ 2047 := hbiased
      change ¬bits x / 2 ^ 63 = 1 ↔ _
      rw [infinityBits]
      omega
    simp only [if_neg hbiased]
    by_cases hzero : bits x / twoPow 52 % twoPow 11 = 0
    · simpa [if_pos hzero] using hsign
    · simpa [if_neg hzero] using hsign

theorem isUnsigned_div_two {x : Float} (h : isUnsigned x = true) : isUnsigned (x / 2.0) = true :=
  isUnsigned_iff_bits.mpr ((bits_div_two_le x).trans_lt (isUnsigned_iff_bits.mp h))

/-- What is written of a finite number can be read. -/
theorem exists_parse?_fixed {x : Float} (h : isFinite x = true) {places : Nat}
    (hplaces : 0 < places) : ∃ y, parse? (fixed places x).toList = some y := by
  obtain ⟨b, hb⟩ := isFinite_iff.mp h
  obtain ⟨cs, hcs, htext⟩ := exists_toList_fixed hb hplaces
  rw [htext]
  exact exists_parse? hcs b.negative

theorem not_mem_fixed_k {places : Nat} (hplaces : 0 < places) (x : Float) :
    'k' ∉ (fixed places x).toList := by
  cases hfinite : isFinite x with
  | false =>
    rcases toList_fixed_of_not_isFinite hfinite places with h | h | h <;> rw [h] <;> decide
  | true =>
    obtain ⟨b, hb⟩ := isFinite_iff.mp hfinite
    obtain ⟨cs, ⟨whole, places, rfl, -, -, hdigits, hdigits'⟩, htext⟩ :=
      exists_toList_fixed hb hplaces
    rw [htext]
    simp only [List.mem_append, List.mem_cons, not_or]
    refine ⟨?_, fun h => absurd (hdigits _ h) (by decide), by decide,
      fun h => absurd (hdigits' _ h) (by decide)⟩
    cases b.negative <;> decide

end Decimal

/-- Whether both numbers of a place are finite. -/
def Coordinate.isFinite (p : Coordinate) : Bool :=
  Decimal.isFinite p.lat && Decimal.isFinite p.lng

/-- Whether the row of the circle can be read: its numbers are finite, and its radius has no minus
sign. -/
def Circle.isReadable (c : Circle) : Bool :=
  c.center.isFinite && Decimal.isUnsigned c.radius

namespace PlanEntry

open Decimal

theorem isDecimalDigit_of_isDigit {c : Char} (h : c.isDigit = true) :
    Text.isDecimalDigit c = true := by
  have hlt : c.toNat < 0x80 := by
    simp only [Char.isDigit, Bool.and_eq_true, decide_eq_true_eq] at h
    exact Nat.lt_of_le_of_lt h.2 (by decide)
  rw [Text.isDecimalDigit, if_pos hlt, h]

theorem unsignedNumber?_append {cs : List Char} (h : IsNumberText cs) (r : List Char) :
    unsignedNumber? (cs ++ '_' :: r) = some (cs, '_' :: r) := by
  obtain ⟨whole, places, rfl, hwhole, hplaces, hdigits, hdigits'⟩ := h
  have hwhole' : ∀ c ∈ whole, Text.isDecimalDigit c = true :=
    fun c hc => isDecimalDigit_of_isDigit (hdigits c hc)
  have hplaces' : ∀ c ∈ places, Text.isDecimalDigit c = true :=
    fun c hc => isDecimalDigit_of_isDigit (hdigits' c hc)
  rw [List.append_assoc, List.cons_append, unsignedNumber?]
  rw [List.takeWhile_append_of_pos hwhole', List.takeWhile_cons_of_neg (by decide),
    List.dropWhile_append_of_pos hwhole', List.dropWhile_cons_of_neg (by decide)]
  simp only
  rw [List.takeWhile_append_of_pos hplaces', List.takeWhile_cons_of_neg (by decide),
    List.dropWhile_append_of_pos hplaces', List.dropWhile_cons_of_neg (by decide)]
  simp [hwhole, hplaces]

theorem signedNumber?_append {cs : List Char} (h : IsNumberText cs) (negative : Bool)
    (r : List Char) : signedNumber? (signText negative ++ cs ++ '_' :: r) =
      some (signText negative ++ cs, '_' :: r) := by
  have hunsigned := unsignedNumber?_append h r
  cases negative with
  | true => simp [signText, signedNumber?, hunsigned]
  | false =>
    obtain ⟨d, ds, rfl, hminus, -⟩ := h.exists_cons
    simp only [signText, Bool.false_eq_true, if_false, List.nil_append, signedNumber?]
    split
    · next heq => exact absurd (List.cons.inj heq).1 hminus
    · exact hunsigned

theorem unsignedNumber?_cons_eq_none {c : Char} (h : Text.isDecimalDigit c = false)
    (cs : List Char) : unsignedNumber? (c :: cs) = none := by
  rw [unsignedNumber?, List.takeWhile_cons_of_neg (by simp [h])]
  rfl

/-- Only what is written of a finite number can be read as a number with a sign. -/
theorem signedNumber?_fixed {places : Nat} (hplaces : 0 < places) (x : Float) (r : List Char) :
    signedNumber? ((fixed places x).toList ++ '_' :: r) =
      if isFinite x then some ((fixed places x).toList, '_' :: r) else none := by
  cases hfinite : isFinite x with
  | false =>
    have hi : ∀ cs, unsignedNumber? ('i' :: cs) = none :=
      unsignedNumber?_cons_eq_none (by decide)
    have hN : ∀ cs, unsignedNumber? ('N' :: cs) = none :=
      unsignedNumber?_cons_eq_none (by decide)
    rcases toList_fixed_of_not_isFinite hfinite places with h | h | h <;> rw [h] <;>
      simp [signedNumber?, hi, hN]
  | true =>
    obtain ⟨b, hb⟩ := isFinite_iff.mp hfinite
    obtain ⟨cs, hcs, htext⟩ := exists_toList_fixed hb hplaces
    rw [htext, signedNumber?_append hcs]
    rfl

/-- What is written of any other number than an unsigned one begins with a sign or a letter. -/
theorem exists_cons_of_not_isUnsigned {x : Float} (h : isUnsigned x = false) {places : Nat}
    (hplaces : 0 < places) :
    ∃ c cs, (fixed places x).toList = c :: cs ∧ Text.isDecimalDigit c = false := by
  cases hfinite : isFinite x with
  | false =>
    rcases toList_fixed_of_not_isFinite hfinite places with h | h | h
    · exact ⟨'-', _, h, by decide⟩
    · exact ⟨'i', _, h, by decide⟩
    · exact ⟨'N', _, h, by decide⟩
  | true =>
    obtain ⟨b, hb⟩ := isFinite_iff.mp hfinite
    obtain ⟨cs, -, htext⟩ := exists_toList_fixed hb hplaces
    have hnegative : b.negative = true := by simpa [isUnsigned, hb] using h
    refine ⟨'-', cs, ?_, by decide⟩
    rw [htext, hnegative]
    rfl

/-- Only what is written of a finite number without a minus sign can be read as a number without a
sign. -/
theorem unsignedNumber?_fixed {places : Nat} (hplaces : 0 < places) (x : Float) (r : List Char) :
    unsignedNumber? ((fixed places x).toList ++ '_' :: r) =
      if isUnsigned x then some ((fixed places x).toList, '_' :: r) else none := by
  cases hunsigned : isUnsigned x with
  | false =>
    obtain ⟨c, cs, htext, hc⟩ := exists_cons_of_not_isUnsigned hunsigned hplaces
    rw [htext]
    exact unsignedNumber?_cons_eq_none hc _
  | true =>
    obtain ⟨b, hb, hnegative⟩ := isUnsigned_iff.mp hunsigned
    obtain ⟨cs, hcs, htext⟩ := exists_toList_fixed hb hplaces
    rw [htext, hnegative]
    exact unsignedNumber?_append hcs r

theorem toList_renderRow (c : Circle) (level : String) : (renderRow c level).toList =
    (fixed 6 c.center.lat).toList ++ '_' :: ((fixed 6 c.center.lng).toList ++ '_' ::
      ((fixed 1 c.radius).toList ++ '_' :: ("circle=".toList ++ level.toList))) := by
  simp [renderRow, String.toList_append]

/-- The numbers of a row are found if its circle is readable. -/
theorem numbers?_renderRow (c : Circle) (level : String) : numbers? (renderRow c level).toList =
    if c.isReadable then some ((fixed 6 c.center.lat).toList, (fixed 6 c.center.lng).toList,
      (fixed 1 c.radius).toList) else none := by
  rw [numbers?, toList_renderRow, signedNumber?_fixed (by decide), Circle.isReadable,
    Coordinate.isFinite]
  cases isFinite c.center.lat with
  | false => rfl
  | true =>
    simp only [if_true, Option.bind_eq_bind, Option.bind_some, afterBar?]
    rw [signedNumber?_fixed (by decide)]
    cases isFinite c.center.lng with
    | false => rfl
    | true =>
      simp only [if_true, Option.bind_some]
      rw [unsignedNumber?_fixed (by decide)]
      cases isUnsigned c.radius <;> rfl

theorem occurs_renderRow (c : Circle) (n : Nat) :
    Text.occurs endMarker.toList (renderRow c (levelAt n)).toList = false ∧
      Text.occurs skipMarker.toList (renderRow c (levelAt n)).toList = false := by
  obtain ⟨cs, d, hlevel, -, hchars⟩ := exists_toList_levelAt n
  have hmem : ∀ x, isLevelChar x = false → x ∉ (levelAt n).toList := by
    intro x hx h
    rw [hlevel] at h
    simp [hchars x h] at hx
  constructor
  · rw [Bool.eq_false_iff, Ne, Text.occurs_iff]
    exact fun h => not_mem_renderRow c (hmem ' ' (by decide)) (h.subset (by decide))
  · rw [Bool.eq_false_iff, Ne, Text.occurs_iff]
    intro h
    have hk : 'k' ∈ (renderRow c (levelAt n)).toList := h.subset (by decide)
    rw [toList_renderRow] at hk
    simp [not_mem_fixed_k, hmem 'k' (by decide)] at hk

/-- The row of a readable circle says to search a circle at its level. -/
theorem ofRow_renderRow {c : Circle} (h : c.isReadable = true) (n : Nat) :
    ∃ c', ofRow (renderRow c (levelAt n)) = .ok (.circle (levelAt n) c') := by
  obtain ⟨hend, hskip⟩ := occurs_renderRow c n
  have hnumbers := numbers?_renderRow c (levelAt n)
  rw [if_pos h] at hnumbers
  simp only [Circle.isReadable, Coordinate.isFinite, Bool.and_eq_true] at h
  obtain ⟨⟨hlat, hlng⟩, hradius⟩ := h
  obtain ⟨b, hb, -⟩ := isUnsigned_iff.mp hradius
  obtain ⟨lat, hlat⟩ := exists_parse?_fixed hlat (show 0 < 6 by decide)
  obtain ⟨lng, hlng⟩ := exists_parse?_fixed hlng (show 0 < 6 by decide)
  obtain ⟨radius, hradius⟩ :=
    exists_parse?_fixed (isFinite_iff.mpr ⟨b, hb⟩) (show 0 < 1 by decide)
  refine ⟨⟨⟨lat, lng⟩, radius⟩, ?_⟩
  rw [ofRow, hend, hskip, levelOf?_renderRow, hnumbers]
  simp [hlat, hlng, hradius]

/-- The row of any other circle cannot be read. -/
theorem ofRow_renderRow_of_not_isReadable {c : Circle} (h : c.isReadable = false) (n : Nat) :
    ofRow (renderRow c (levelAt n)) = .error (.plan (.noCircle (renderRow c (levelAt n)))) := by
  obtain ⟨hend, hskip⟩ := occurs_renderRow c n
  have hnumbers := numbers?_renderRow c (levelAt n)
  rw [h] at hnumbers
  rw [ofRow, hend, hskip, levelOf?_renderRow, hnumbers]
  rfl

end PlanEntry

namespace Plan

variable {name : String} {rows : List String} {c : Circle} {minRadius : Float} {k : Nat}

/-- If rows cannot be read as a plan, then one of them cannot. -/
theorem exists_of_readLines_eq_error {err : Error} (h : readLines rows = .error err) :
    ∃ row ∈ rows, PlanEntry.ofRow row = .error err := by
  induction rows with
  | nil => cases h
  | cons row rows ih =>
    rw [readLines] at h
    cases hrow : PlanEntry.ofRow row with
    | error e =>
      rw [hrow] at h
      obtain rfl : e = err := Except.error.inj h
      exact ⟨row, List.mem_cons_self, hrow⟩
    | ok entry =>
      rw [hrow] at h
      cases hrows : readLines rows with
      | ok ls =>
        rw [hrows] at h
        cases h
      | error e =>
        rw [hrows] at h
        obtain rfl : e = err := Except.error.inj h
        obtain ⟨row', hmem, hrow'⟩ := ih hrows
        exact ⟨row', List.mem_cons_of_mem row hmem, hrow'⟩

theorem exists_levelAt_of_mem_tree {x : Circle × String} (h : x ∈ tree c k) :
    ∃ n, x.2 = levelAt n := by
  have hmem := List.mem_map_of_mem (f := Prod.snd) h
  rw [map_snd_tree] at hmem
  obtain ⟨n, -, hn⟩ := List.mem_map.mp hmem
  exact ⟨n, hn.symm⟩

/-- The rows that are made for a circle can be read if all circles of the plan are readable;
otherwise reading them fails at one that is not. -/
theorem ofRows_generatePlan (name : String) (h : (splits minRadius c.radius).encard = k) :
    (∃ plan, ofRows name (generatePlan c minRadius) = .ok plan ∧
      ∀ x ∈ tree c k, x.1.isReadable = true) ∨
    ∃ x ∈ tree c k, x.1.isReadable = false ∧ ofRows name (generatePlan c minRadius) =
      .error (.plan (.noCircle (renderRow x.1 x.2))) := by
  have hrows := generatePlan_eq h
  cases hread : ofRows name (generatePlan c minRadius) with
  | ok plan =>
    refine .inl ⟨plan, rfl, fun x hx => ?_⟩
    obtain ⟨-, hplan, hentry⟩ := ofRows_eq_ok_iff.mp hread
    have hmem : renderRow x.1 x.2 ∈ plan.rows := by
      rw [hplan, hrows]
      exact List.mem_append_left _ (List.mem_map_of_mem hx)
    obtain ⟨l, hl, hrow⟩ := List.mem_map.mp hmem
    obtain ⟨n, hn⟩ := exists_levelAt_of_mem_tree hx
    by_contra hreadable
    rw [Bool.not_eq_true] at hreadable
    have herror := PlanEntry.ofRow_renderRow_of_not_isReadable hreadable n
    rw [← hn, ← hrow, hentry l hl] at herror
    cases herror
  | error err =>
    have hlines : readLines (generatePlan c minRadius) = .error err := by
      rw [ofRows] at hread
      cases hlines : readLines (generatePlan c minRadius) with
      | ok ls =>
        rw [hlines] at hread
        cases hread
      | error e =>
        rw [hlines] at hread
        obtain rfl : e = err := Except.error.inj hread
        rfl
    obtain ⟨row, hmem, hrow⟩ := exists_of_readLines_eq_error hlines
    rw [hrows] at hmem
    rcases List.mem_append.mp hmem with hmem | hmem
    · obtain ⟨x, hx, rfl⟩ := List.mem_map.mp hmem
      obtain ⟨n, hn⟩ := exists_levelAt_of_mem_tree hx
      cases hreadable : x.1.isReadable with
      | true =>
        obtain ⟨c', hok⟩ := PlanEntry.ofRow_renderRow hreadable n
        rw [hn, hok] at hrow
        cases hrow
      | false =>
        have herror := PlanEntry.ofRow_renderRow_of_not_isReadable hreadable n
        rw [← hn, hrow] at herror
        exact .inr ⟨x, hx, hreadable, by rw [Except.error.inj herror]⟩
    · have hend : PlanEntry.ofRow PlanEntry.endMarker = .ok .finish :=
        PlanEntry.ofRow_eq_finish_iff.mpr (by decide)
      rw [List.mem_singleton.mp hmem, hend] at hrow
      cases hrow

/-- The circles of a plan are readable if the radius of the first one has no minus sign and no
centre of them lies beyond the finite numbers. -/
theorem forall_isReadable_tree_iff : (∀ x ∈ tree c k, x.1.isReadable = true) ↔
    Decimal.isUnsigned c.radius = true ∧ ∀ x ∈ tree c k, x.1.center.isFinite = true := by
  have hhalved : ∀ i, Decimal.isUnsigned c.radius = true →
      Decimal.isUnsigned (halved c.radius i) = true := by
    intro i h
    induction i with
    | zero => exact h
    | succ i ih =>
      rw [halved_succ']
      exact Decimal.isUnsigned_div_two ih
  simp only [Circle.isReadable, Bool.and_eq_true]
  constructor
  · intro h
    have hroot : (c, "1") ∈ tree c k := by
      cases k with
      | zero => simp [tree]
      | succ k => simp [tree, layers_succ]
    exact ⟨(h _ hroot).2, fun x hx => (h x hx).1⟩
  · rintro ⟨hradius, hcenter⟩ x hx
    have htop : ∀ x ∈ [(c, "1")], x.1.radius = c.radius := by simp
    obtain ⟨i, hi⟩ := exists_radius_of_mem_layers htop hx
    exact ⟨hcenter x hx, hi ▸ hhalved i hradius⟩

theorem exists_ofRows_generatePlan_iff (name : String)
    (h : (splits minRadius c.radius).encard = k) :
    (∃ plan, ofRows name (generatePlan c minRadius) = .ok plan) ↔
      ∀ x ∈ tree c k, x.1.isReadable = true := by
  rcases ofRows_generatePlan name h with ⟨plan, hplan, hall⟩ | ⟨x, hx, hunreadable, hplan⟩
  · exact iff_of_true ⟨plan, hplan⟩ hall
  · refine iff_of_false ?_ fun hall => ?_
    · rintro ⟨plan, hok⟩
      rw [hplan] at hok
      cases hok
    · rw [hall x hx] at hunreadable
      cases hunreadable

end Plan

end PlaceSearch
