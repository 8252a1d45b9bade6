import Mathlib
import PlaceSearch.Decimal.Binary

/-!
# Halving a floating-point number

The bits of a positive number are ordered as the numbers are.  Halving lowers the exponent by one,
or rounds half of the mantissa where the exponent is the least one; either way the bits get less,
unless the number is infinite.  So what lies below the half of a number lies below the number, and
a finite number can be halved only so often before a given positive bound is passed.
-/

namespace PlaceSearch.Decimal

open Float.Model Float.Model.UnpackedFloat

/-! ## The bits of a value -/

/-- The bits of a number. -/
def bits (x : Float) : Nat := x.toBits.toNat

/-- The bits of a positive infinity. -/
def infinityBits : Nat := 2047 * 2 ^ 52

/-- The bit of a sign. -/
def signBits : Sign → Nat
  | .positive => 0
  | .negative => 2 ^ 63

@[simp] theorem signBits_positive : signBits .positive = 0 := rfl

@[simp] theorem signBits_negative : signBits .negative = 2 ^ 63 := rfl

/-- The bits of a value in its canonical form. -/
def bitsOf : UnpackedFloat → Nat
  | .notANumber => infinityBits + 2 ^ 51
  | .infinity s => signBits s + infinityBits
  | .zero s => signBits s
  | .finite s m e _ => signBits s + (e + 1074).toNat * 2 ^ 52 + m

theorem bitsOf_finite {s : Sign} {m : Nat} {e : Int} {hm : 0 < m} :
    bitsOf (.finite s m e hm) = signBits s + ((e + 1074).toNat * 2 ^ 52 + m) :=
  Nat.add_assoc _ _ _

/-- Mantissa and exponent fit the format. -/
structure Canonical (m : Nat) (e : Int) : Prop where
  mantissa_lt : m < 2 ^ 53
  le_exponent : -1074 ≤ e
  exponent_le : e ≤ 971
  normal : 2 ^ 52 ≤ m ∨ e = -1074

/-- A finite value is in the canonical form. -/
def IsCanonical (u : UnpackedFloat) : Prop :=
  ∀ s m e hm, u = .finite s m e hm → Canonical m e

variable {u v : UnpackedFloat} {x y : Float}

theorem toNat_packComponents (s : Sign) (e : BitVec 11) (m : BitVec 52) :
    (packComponents Format.binary64 s e m).toNat = signBits s + e.toNat * 2 ^ 52 + m.toNat := by
  have he := e.isLt
  have hm := m.isLt
  simp only [packComponents, BitVec.toNat_append]
  rw [← Nat.shiftLeft_add_eq_or_of_lt he, ← Nat.shiftLeft_add_eq_or_of_lt hm]
  cases s with
  | positive => simp [Sign.toBitVec, Nat.shiftLeft_eq]
  | negative =>
    simp [Sign.toBitVec, Nat.shiftLeft_eq]
    omega

theorem toNat_pack_finite {s : Sign} {m : Nat} {e : Int} (hm : 0 < m) (h : Canonical m e) :
    (UnpackedFloat.pack Format.binary64 (.finite s m e hm)).toNat = bitsOf (.finite s m e hm) := by
  obtain ⟨hlt, hle, hge, hnormal⟩ := h
  have hlog : m.log2 + 1 = 53 ↔ 2 ^ 52 ≤ m := by
    have h1 := Nat.le_log2 (k := 52) (Nat.ne_of_gt hm)
    have h2 := (Nat.log2_lt (k := 53) (Nat.ne_of_gt hm)).mpr hlt
    omega
  have hfit : ¬ 2 ^ 11 ≤ (e + (1023 : Nat) + (52 : Nat)).toNat + 1 := by omega
  have hexp : Format.exponentBias Format.binary64 = 1023 := by decide
  have hbits : Format.mantissaBits Format.binary64 = 53 := by decide
  simp only [UnpackedFloat.pack, hexp, hbits, if_neg hfit, hlog]
  rw [bitsOf_finite]
  by_cases hnorm : 2 ^ 52 ≤ m
  · have hfield : (e + (1023 : Nat) + (52 : Nat)).toNat % 2 ^ 11 * 2 ^ 52 + m % 2 ^ 52 =
        (e + 1074).toNat * 2 ^ 52 + m := by omega
    rw [if_pos hnorm, toNat_packComponents s (.ofNat 11 _) (.ofNat 52 m), BitVec.toNat_ofNat,
      BitVec.toNat_ofNat, Nat.add_assoc, hfield]
  · have hfield : 0 % 2 ^ 11 * 2 ^ 52 + m % 2 ^ 52 = (e + 1074).toNat * 2 ^ 52 + m := by omega
    rw [if_neg hnorm, toNat_packComponents s 0#11 (.ofNat 52 m), BitVec.toNat_ofNat,
      BitVec.toNat_ofNat, Nat.add_assoc, hfield]

theorem isCanonical_unpack (x : Float) : IsCanonical x.toModel.unpack := by
  intro s m e hm h
  have hbias : Format.exponentBias Format.binary64 = 1023 := by decide
  unfold Float.Model.unpack at h
  revert h
  fun_cases UnpackedFloat.unpack with
  | case1 => simp
  | case2 => simp
  | case3 => simp
  | case4 mvec evec exponent svec sign hevec hevec' hmvec =>
    intro h
    rw [UnpackedFloat.finite.injEq] at h
    obtain ⟨-, rfl, rfl⟩ := h
    have hlt : mvec.toNat < 2 ^ 52 := mvec.isLt
    have hexp : exponent = -1075 := by
      simp only [exponent, hbias, hevec']
      rfl
    rw [hexp]
    exact ⟨by omega, by decide, by decide, .inr rfl⟩
  | case5 mvec evec exponent svec sign hevec hevec' =>
    intro h
    rw [UnpackedFloat.finite.injEq] at h
    obtain ⟨-, rfl, rfl⟩ := h
    have hm : (1#1 ++ mvec).toNat = 2 ^ 52 + mvec.toNat := by
      rw [BitVec.toNat_append, ← Nat.shiftLeft_add_eq_or_of_lt mvec.isLt]
      rfl
    have hlt : mvec.toNat < 2 ^ 52 := mvec.isLt
    have hexp : exponent = evec.toNat - 1075 := by
      simp only [exponent, hbias]
      rfl
    have hne : evec.toNat ≠ 2047 := fun h => hevec (BitVec.eq_of_toNat_eq h)
    have hne' : evec.toNat ≠ 0 := fun h => hevec' (BitVec.eq_of_toNat_eq h)
    have hevec : evec.toNat < 2 ^ 11 := evec.isLt
    rw [hm, hexp]
    exact ⟨by omega, by omega, by omega, .inl (by omega)⟩

theorem toNat_pack (hu : IsCanonical u) :
    (UnpackedFloat.pack Format.binary64 u).toNat = bitsOf u := by
  cases u with
  | notANumber => decide
  | infinity s => cases s <;> decide
  | zero s => cases s <;> decide
  | finite s m e hm => exact toNat_pack_finite hm (hu _ _ _ _ rfl)

/-- The bits of a number are those of its value. -/
theorem bits_eq (x : Float) : bits x = bitsOf x.toModel.unpack := by
  have hpack : (UnpackedFloat.unpack Format.binary64 x.toModel.toBits.toBitVec).pack _ = _ :=
    pack_unpack_of_valid x.toModel.valid
  rw [← toNat_pack (isCanonical_unpack x), Float.Model.unpack, hpack]
  rfl

/-! ## The quotient by two -/

theorem targetExponent_eq (t : Int) :
    Format.binary64.targetExponent t = max (t - 53) (-1074) := rfl

/-- A mantissa at its target exponent is not shifted. -/
theorem shiftToTargetExponent_eq {m : Nat} {e : Int} (acc : Accuracy) (hm : m < 2 ^ 53)
    (he : -1074 ≤ e) : shiftToTargetExponent Format.binary64 m e acc =
      (.ofMantissaAndAccuracy m acc, e) := by
  have hlog : m.log2 ≤ 52 := by
    by_cases h : m = 0
    · simp [h]
    · have := (Nat.log2_lt h).mpr hm
      omega
  have hshift : (Format.binary64.targetExponent (totalExponent m e) - e).toNat = 0 := by
    rw [targetExponent_eq, totalExponent]
    omega
  simp only [shiftToTargetExponent, shiftToExponent, hshift]
  exact Prod.ext rfl (Int.add_zero e)

/-- A mantissa with one bit too many, a zero, is shifted by that bit. -/
theorem shiftToTargetExponent_twice {m : Nat} {e : Int} (hm : m.log2 = 52) (hpos : 0 < m)
    (he : -1074 ≤ e + 1) : shiftToTargetExponent Format.binary64 (2 * m) e .exact =
      (⟨m, false, false⟩, e + 1) := by
  have hlog : (2 * m).log2 = 53 := by
    rw [Nat.log2_two_mul (Nat.ne_of_gt hpos), hm]
  have hshift : (Format.binary64.targetExponent (totalExponent (2 * m) e) - e).toNat = 1 := by
    rw [targetExponent_eq, totalExponent, hlog]
    omega
  simp only [shiftToTargetExponent, shiftToExponent, hshift]
  refine Prod.ext ?_ rfl
  change ExtendedMantissa.shiftRightOne ⟨2 * m, false, false⟩ = _
  simp [ExtendedMantissa.shiftRightOne]

theorem unpack_two : (2.0 : Float).toModel.unpack =
    .finite .positive (2 ^ 52) (-51) (by decide) := by
  have hbits : (2.0 : Float).toModel.toBits = 0x4000000000000000 := by decide +kernel
  rw [Float.Model.unpack, hbits]
  rfl

theorem unpack_zero : (0.0 : Float).toModel.unpack = .zero .positive := by
  have hbits : (0.0 : Float).toModel.toBits = 0 := by decide +kernel
  rw [Float.Model.unpack, hbits]
  rfl

/-- The whole number nearest to half of another one; a half goes to the even neighbour. -/
def halfEven (m : Nat) : Nat :=
  if m % 2 = 0 then m / 2 else m / 2 + m / 2 % 2

theorem halfEven_lt {m : Nat} (hm : 0 < m) : halfEven m < m := by
  unfold halfEven
  split <;> omega

/-- Half of a value. -/
def half : UnpackedFloat → UnpackedFloat
  | .finite s m e h =>
    if -1074 < e then .finite s m (e - 1) h
    else if h : halfEven m = 0 then .zero s
    else .finite s (halfEven m) e (Nat.pos_of_ne_zero h)
  | x => x

theorem div_positive (s : Sign) : s / Sign.positive = s := by
  cases s <;> rfl

/-- Rounding is done with the first shift, if its mantissa fits. -/
theorem roundWithAccuracy_eq {s : Sign} {m : Nat} {e e' : Int} {acc : Accuracy}
    {em : ExtendedMantissa}
    (hshift : shiftToTargetExponent Format.binary64 m e acc = (em, e'))
    (hlt : em.roundedMantissa < 2 ^ 53) (he : -1074 ≤ e') :
    roundWithAccuracy Format.binary64 s m e acc =
      if h : em.roundedMantissa = 0 then .zero s
      else .finite s em.roundedMantissa e' (Nat.pos_of_ne_zero h) := by
  rw [roundWithAccuracy, hshift]
  simp only
  rw [shiftToTargetExponent_eq .exact hlt he]
  rfl

/-- The quotient by two before rounding: the mantissa is shifted as far as the target exponent
asks for. -/
theorem divCore_two {m : Nat} {e t : Int} {k : Nat}
    (ht : max ((m.log2 : Int) + e - 54) (-1074) = t) (hk : e + 51 - t = k) :
    divCore Format.binary64 m e (2 ^ 52) (-51) =
      (m * 2 ^ k / 2 ^ 52, t, accuracyOfFraction (m * 2 ^ k % 2 ^ 52) (2 ^ 52)) := by
  have hlog2 : (2 ^ 52).log2 = 52 := Nat.log2_two_pow
  have htarget : min (e - -51) (Format.binary64.targetExponent
      (totalExponent m e - totalExponent (2 ^ 52) (-51))) = t := by
    rw [targetExponent_eq, totalExponent, totalExponent, hlog2]
    omega
  have hshift : (e - -51 - t).toNat = k := by omega
  simp only [divCore, htarget, hshift, Nat.shiftLeft_eq]

/-- Above the smallest exponent, half of a value has the exponent one less. -/
theorem div_two_normal {s : Sign} {m : Nat} {e : Int} {hm : 0 < m} (h : Canonical m e)
    (he : -1074 < e) : UnpackedFloat.div Format.binary64 (.finite s m e hm)
      (.finite .positive (2 ^ 52) (-51) (by decide)) = .finite s m (e - 1) hm := by
  obtain ⟨hlt, -, -, hnormal⟩ := h
  have hlog : m.log2 = 52 := by
    rw [Nat.log2_eq_iff (Nat.ne_of_gt hm)]
    omega
  rw [UnpackedFloat.div, div_positive]
  by_cases hlast : e = -1073
  · -- The quotient has the mantissa itself.
    have hdiv : m * 2 ^ 52 / 2 ^ 52 = m := by omega
    have hmod : m * 2 ^ 52 % 2 ^ 52 = 0 := by omega
    rw [divCore_two (t := -1074) (k := 52) (by omega) (by omega), hdiv, hmod, hlast]
    exact (roundWithAccuracy_eq (shiftToTargetExponent_eq .exact hlt (by omega)) hlt
      (by omega)).trans (dif_neg (Nat.ne_of_gt hm))
  · -- The quotient has one bit more.
    have hdiv : m * 2 ^ 53 / 2 ^ 52 = 2 * m := by omega
    have hmod : m * 2 ^ 53 % 2 ^ 52 = 0 := by omega
    have hshift := shiftToTargetExponent_twice (e := e - 2) hlog hm (by omega)
    rw [show e - 2 + 1 = e - 1 by omega] at hshift
    rw [divCore_two (t := e - 2) (k := 53) (by omega) (by omega), hdiv, hmod]
    exact (roundWithAccuracy_eq hshift hlt (by omega)).trans (dif_neg (Nat.ne_of_gt hm))

/-- At the smallest exponent the mantissa is halved. -/
theorem div_two_subnormal {s : Sign} {m : Nat} {hm : 0 < m} (hlt : m < 2 ^ 53) :
    UnpackedFloat.div Format.binary64 (.finite s m (-1074) hm)
      (.finite .positive (2 ^ 52) (-51) (by decide)) =
      if h : halfEven m = 0 then .zero s
      else .finite s (halfEven m) (-1074) (Nat.pos_of_ne_zero h) := by
  have hlog : m.log2 ≤ 52 := by
    have := (Nat.log2_lt (Nat.ne_of_gt hm)).mpr hlt
    omega
  have hdiv : m * 2 ^ 51 / 2 ^ 52 = m / 2 := by omega
  have hround : (accuracyOfFraction (m * 2 ^ 51 % 2 ^ 52) (2 ^ 52)).roundToNearestEven (m / 2) =
      halfEven m := by
    rw [accuracyOfFraction, halfEven]
    by_cases heven : m % 2 = 0
    · rw [if_pos (by omega), if_pos heven]
      rfl
    · have hmod : m * 2 ^ 51 % 2 ^ 52 = 2 ^ 51 := by omega
      rw [if_neg (by omega), if_neg heven, hmod]
      rfl
  have hlt' : halfEven m < 2 ^ 53 := (halfEven_lt hm).trans hlt
  rw [UnpackedFloat.div, div_positive, divCore_two (t := -1074) (k := 51) (by omega) (by omega),
    hdiv]
  have hem : ∀ acc : Accuracy,
      (ExtendedMantissa.ofMantissaAndAccuracy (m / 2) acc).roundedMantissa =
        acc.roundToNearestEven (m / 2) := by
    rintro (_ | _ | _ | _) <;> rfl
  rw [← hround, ← hem] at hlt' ⊢
  exact roundWithAccuracy_eq (shiftToTargetExponent_eq _ (by omega) (by omega)) hlt' (by omega)

theorem isCanonical_half (hu : IsCanonical u) : IsCanonical (half u) := by
  intro s m e hm h
  cases u with
  | notANumber => cases h
  | infinity s => cases h
  | zero s => cases h
  | finite s' m' e' hm' =>
    obtain ⟨hlt, hle, hge, hnormal⟩ := hu _ _ _ _ rfl
    rw [half] at h
    split at h
    · cases h
      exact ⟨hlt, by omega, by omega, .inl (by omega)⟩
    · split at h
      · cases h
      · cases h
        exact ⟨(halfEven_lt hm').trans hlt, hle, hge, .inr (by omega)⟩

theorem div_two (hu : IsCanonical u) : UnpackedFloat.div Format.binary64 u
    (.finite .positive (2 ^ 52) (-51) (by decide)) = half u := by
  cases u with
  | notANumber => rfl
  | infinity s => exact congrArg UnpackedFloat.infinity (div_positive s)
  | zero s => exact congrArg UnpackedFloat.zero (div_positive s)
  | finite s m e hm =>
    have hcanonical := hu _ _ _ _ rfl
    rw [half]
    by_cases he : -1074 < e
    · rw [if_pos he, div_two_normal hcanonical he]
    · obtain rfl : e = -1074 := Int.le_antisymm (Int.not_lt.mp he) hcanonical.le_exponent
      rw [if_neg he, div_two_subnormal hcanonical.mantissa_lt]

/-- The bits of half a number. -/
theorem bits_div_two (x : Float) : bits (x / 2.0) = bitsOf (half x.toModel.unpack) := by
  have hu := isCanonical_unpack x
  rw [← toNat_pack (isCanonical_half hu), ← div_two hu, ← unpack_two]
  rfl

/-! ## The order of positive numbers -/

/-- The values of the positive numbers. -/
inductive IsPositive : UnpackedFloat → Prop
  | infinity : IsPositive (.infinity .positive)
  | finite (m : Nat) (e : Int) (hm : 0 < m) : IsPositive (.finite .positive m e hm)

theorem bitsOf_finite_lt {m : Nat} {e : Int} (hm : 0 < m) (h : Canonical m e) :
    bitsOf (.finite .positive m e hm) < bitsOf (.infinity .positive) := by
  obtain ⟨hlt, hle, hge, -⟩ := h
  have hinf : bitsOf (.infinity .positive) = 2047 * 2 ^ 52 := by decide
  rw [bitsOf_finite, signBits_positive, hinf]
  omega

theorem isPositive_iff_bitsOf (hu : IsCanonical u) :
    IsPositive u ↔ 0 < bitsOf u ∧ bitsOf u ≤ infinityBits := by
  constructor
  · rintro (_ | ⟨m, e, hm⟩)
    · decide
    · obtain ⟨hlt, hle, hge, -⟩ := hu _ _ _ _ rfl
      rw [bitsOf_finite, signBits_positive, infinityBits]
      omega
  · rintro ⟨hpos, hle⟩
    cases u with
    | notANumber => exact absurd hle (by decide)
    | infinity s => cases s with
      | positive => exact .infinity
      | negative => exact absurd hle (by decide)
    | zero s => cases s with
      | positive => exact absurd hpos (by decide)
      | negative => exact absurd hle (by decide)
    | finite s m e hm => cases s with
      | positive => exact .finite m e hm
      | negative =>
        rw [bitsOf_finite, signBits_negative, infinityBits] at hle
        omega

theorem isPositive_iff_lt : IsPositive u ↔ (UnpackedFloat.zero .positive).lt u = true := by
  constructor
  · rintro (_ | _) <;> rfl
  · intro h
    cases u with
    | notANumber => cases h
    | infinity s => cases s with
      | positive => exact .infinity
      | negative => cases h
    | zero s => cases h
    | finite s m e hm => cases s with
      | positive => exact .finite m e hm
      | negative => cases h

/-- What lies above a positive value is positive. -/
theorem IsPositive.of_le (hu : IsPositive u) (h : u.le v = true) : IsPositive v := by
  cases v with
  | notANumber => cases hu <;> cases h
  | infinity s => cases s with
    | positive => exact .infinity
    | negative => cases hu <;> cases h
  | zero s => cases hu <;> cases h
  | finite s m e hm => cases s with
    | positive => exact .finite m e hm
    | negative => cases hu <;> cases h

theorem compare_then_isLE_iff {m m' : Nat} {e e' : Int} (h : Canonical m e)
    (h' : Canonical m' e') : ((compare e e').then (compare m m')).isLE = true ↔
      (e + 1074).toNat * 2 ^ 52 + m ≤ (e' + 1074).toNat * 2 ^ 52 + m' := by
  obtain ⟨hlt, hle, -, hnormal⟩ := h
  obtain ⟨hlt', hle', -, hnormal'⟩ := h'
  rcases Int.lt_trichotomy e e' with he | rfl | he
  · rw [Int.compare_eq_lt.mpr he]
    simp
    omega
  · rw [Int.compare_eq_eq.mpr rfl]
    simp [Nat.isLE_compare]
  · rw [Int.compare_eq_gt.mpr he]
    simp
    omega

/-- Positive values are ordered as their bits are. -/
theorem IsPositive.le_iff (hu : IsPositive u) (hv : IsPositive v) (hu' : IsCanonical u)
    (hv' : IsCanonical v) : u.le v = true ↔ bitsOf u ≤ bitsOf v := by
  cases hu with
  | infinity => cases hv with
    | infinity => decide
    | finite m e hm =>
      have hlt := bitsOf_finite_lt hm (hv' _ _ _ _ rfl)
      exact iff_of_false nofun (Nat.not_le.mpr hlt)
  | finite m e hm => cases hv with
    | infinity => exact iff_of_true rfl (bitsOf_finite_lt hm (hu' _ _ _ _ rfl)).le
    | finite m' e' hm' =>
      rw [bitsOf_finite, bitsOf_finite, Nat.add_le_add_iff_left,
        ← compare_then_isLE_iff (hu' _ _ _ _ rfl) (hv' _ _ _ _ rfl)]
      rfl

/-- Positive numbers are those whose bits lie between those of zero and of infinity. -/
theorem zero_lt_iff : 0.0 < x ↔ 0 < bits x ∧ bits x ≤ infinityBits := by
  rw [bits_eq, ← isPositive_iff_bitsOf (isCanonical_unpack x), isPositive_iff_lt, ← unpack_zero]
  exact decide_eq_true_iff

theorem isPositive_unpack_iff : IsPositive x.toModel.unpack ↔ 0.0 < x := by
  rw [zero_lt_iff, bits_eq, isPositive_iff_bitsOf (isCanonical_unpack x)]

theorem zero_lt_of_le (hx : 0.0 < x) (h : x ≤ y) : 0.0 < y := by
  rw [← isPositive_unpack_iff] at hx ⊢
  exact hx.of_le (decide_eq_true_iff.mp h)

/-- Positive numbers are ordered as their bits are. -/
theorem le_iff_bits (hx : 0.0 < x) (hy : 0.0 < y) : x ≤ y ↔ bits x ≤ bits y := by
  rw [← isPositive_unpack_iff] at hx hy
  rw [bits_eq, bits_eq, ← hx.le_iff hy (isCanonical_unpack x) (isCanonical_unpack y)]
  exact decide_eq_true_iff

/-! ## The order of a number and its half -/

theorem bitsOf_half_lt {s : Sign} {m : Nat} {e : Int} {hm : 0 < m} (h : Canonical m e) :
    bitsOf (half (.finite s m e hm)) < bitsOf (.finite s m e hm) := by
  have hle := h.le_exponent
  have hlt := halfEven_lt hm
  rw [half, bitsOf_finite]
  split
  · rw [bitsOf_finite]
    omega
  · split
    · exact Nat.lt_add_of_pos_right (Nat.add_pos_right _ hm)
    · rw [bitsOf_finite]
      omega

/-- Halving does not raise the bits of a number. -/
theorem bits_div_two_le (x : Float) : bits (x / 2.0) ≤ bits x := by
  have hu := isCanonical_unpack x
  rw [bits_div_two, bits_eq]
  cases h : x.toModel.unpack with
  | finite s m e hm => exact (bitsOf_half_lt (hu _ _ _ _ h)).le
  | _ => rfl

theorem IsPositive.of_half (h : IsPositive (half u)) : IsPositive u := by
  cases u with
  | notANumber => cases h
  | infinity s => exact h
  | zero s => cases h
  | finite s m e hm => cases s with
    | positive => exact .finite m e hm
    | negative =>
      rw [half] at h
      split at h
      · cases h
      · split at h <;> cases h

/-- A number whose half is positive is positive, and above its half unless it is infinite. -/
theorem of_zero_lt_div_two (h : 0.0 < x / 2.0) :
    0.0 < x ∧ (bits x = infinityBits ∨ bits (x / 2.0) < bits x) := by
  have hu := isCanonical_unpack x
  rw [zero_lt_iff, bits_div_two, ← isPositive_iff_bitsOf (isCanonical_half hu)] at h
  have hpos := h.of_half
  refine ⟨isPositive_unpack_iff.mp hpos, ?_⟩
  rw [bits_div_two, bits_eq]
  cases hx : x.toModel.unpack with
  | finite s m e hm => exact .inr (bitsOf_half_lt (hu _ _ _ _ hx))
  | infinity s =>
    rw [hx] at hpos
    cases hpos
    exact .inl (by decide)
  | _ =>
    rw [hx] at hpos
    cases hpos

theorem IsPositive.half_eq (hpos : IsPositive u) (hu : IsCanonical u)
    (h : bitsOf u = infinityBits) : half u = u := by
  cases hpos with
  | infinity => rfl
  | finite m e hm => exact absurd h (bitsOf_finite_lt hm (hu _ _ _ _ rfl)).ne

theorem div_two_of_infinity (h : bits x = infinityBits) : x / 2.0 = x := by
  have hu := isCanonical_unpack x
  have hpos : IsPositive x.toModel.unpack := by
    rw [isPositive_unpack_iff, zero_lt_iff, h]
    decide
  have hbits : bits (x / 2.0) = bits x := by
    rw [bits_div_two, hpos.half_eq hu (by rw [← bits_eq, h]), bits_eq]
  exact Float.toBits_inj.mp (UInt64.toNat_inj.mp hbits)

/-- What lies below half of a number lies below the number. -/
theorem le_of_le_div_two (hy : 0.0 < y) (h : y ≤ x / 2.0) : y ≤ x := by
  have hhalf := zero_lt_of_le hy h
  obtain ⟨hx, hinf | hlt⟩ := of_zero_lt_div_two hhalf
  · rwa [div_two_of_infinity hinf] at h
  · rw [le_iff_bits hy hhalf] at h
    rw [le_iff_bits hy hx]
    omega

theorem rank_of_pos (h : 0.0 < x) : rank x = bits x := by
  have hle := (zero_lt_iff.mp h).2
  rw [rank, if_pos]
  · rfl
  · exact hle.trans_lt (by decide)

end PlaceSearch.Decimal
