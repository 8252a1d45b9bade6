import PlaceSearch.Decimal.Binary
import PlaceSearch.Decimal.Digits

/-!
# Numbers of a document

A number is kept as a whole number while it is written without point and exponent and fits
64 bits (with or without a sign), and as a floating-point number otherwise.

A decimal is converted with one rounding of its significand and one multiplication or
division by a power of ten, so the result may differ from the nearest number in its last
place.  Significands are cut at 64 bits: further digits before the point raise the exponent,
further digits after it are dropped.
-/

namespace PlaceSearch.Json

/-- A number of a document. -/
inductive Number where
  | whole (n : Int)
  | real (x : Float)

/-- The parts of a written number: the digits before and after the point and the digits of
the exponent with their sign. -/
structure Numeral where
  negative : Bool
  whole : List Char
  places : Option (List Char)
  power : Option (Bool × List Char)

/-- The largest significand. -/
def maxSignificand : Nat := twoPow 64 - 1

/-- The digits before the point: a significand, and how many digits no longer fit. -/
def absorbWhole (ds : List Char) : Nat × Nat :=
  ds.foldl (fun (n, dropped) c =>
    let m := 10 * n + Decimal.digitValue c
    if dropped = 0 ∧ m ≤ maxSignificand then (m, 0) else (n, dropped + 1)) (0, 0)

/-- The digits after the point, added to a significand until one no longer fits; `taken`
counts them. -/
def absorbPlaces (n taken : Nat) : List Char → Nat × Nat
  | [] => (n, taken)
  | c :: cs =>
    let m := 10 * n + Decimal.digitValue c
    if m ≤ maxSignificand then absorbPlaces m (taken + 1) cs else (n, taken)

/-- The power of ten `10 ^ e`, for `e` up to 308. -/
def tenTo (e : Nat) : Float :=
  Float.ofScientific 1 false e

/-- The significand times a power of ten, unless it is too large.  A number that is too
small for one division is divided by `10 ^ 308` first; `fuel` bounds these divisions. -/
def scale (fuel : Nat) (x : Float) (e : Int) : Option Float :=
  if e.natAbs ≤ 308 then
    if 0 ≤ e then
      let y := x * tenTo e.natAbs
      if y.isInf then none else some y
    else some (x / tenTo e.natAbs)
  else if x == 0.0 then some x
  else if 0 ≤ e then none
  else match fuel with
    | 0 => some 0.0
    | fuel + 1 => scale fuel (x / tenTo 308) (e + 308)

/-- The largest exponent that is taken into account. -/
def maxExponent : Int := twoPow 31 - 1

/-- A sum of exponents, kept within 32 bits. -/
def clampExponent (e : Int) : Int :=
  max (-maxExponent - 1) (min maxExponent e)

/-- The value of a written number, unless it is too large. -/
def Numeral.number? (t : Numeral) : Option Number :=
  let (n, dropped) := absorbWhole t.whole
  let signed (x : Float) : Number := .real (if t.negative then -x else x)
  let (m, taken) := match t.places with
    | some ds => absorbPlaces n 0 ds
    | none => (n, 0)
  let base : Int := (dropped : Int) - taken
  match t.power with
  | some (down, ds) =>
    let e : Int := Decimal.valueFrom 0 ds
    if e > maxExponent then
      if m ≠ 0 ∧ !down then none else some (signed 0.0)
    else
      (scale 10 (Float.ofNat m) (clampExponent (if down then base - e else base + e))).map signed
  | none =>
    if t.places.isNone ∧ dropped = 0 then
      if t.negative then
        if n = 0 ∨ n > twoPow 63 then some (signed (Float.ofNat n)) else some (.whole (-(n : Int)))
      else some (.whole n)
    else (scale 10 (Float.ofNat m) base).map signed

/-- The floating-point number nearest to a whole number. -/
def floatOfInt (n : Int) : Float :=
  if n < 0 then -(Float.ofNat n.natAbs) else Float.ofNat n.natAbs

/-- The number as a floating-point number. -/
def Number.float : Number → Float
  | .whole n => floatOfInt n
  | .real x => x

/-- The number as a whole number that is not negative. -/
def Number.nat? : Number → Option Nat
  | .whole n => if 0 ≤ n then some n.toNat else none
  | .real _ => none

end PlaceSearch.Json
