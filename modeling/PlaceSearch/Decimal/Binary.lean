/-!
# Binary floating-point numbers

A 64-bit floating-point number is read from its bits as a sign, a whole number and a power of
two.  The printers of this folder start from that exact value and use whole-number arithmetic
only, and numbers of fixed width are cut at powers of two and of ten elsewhere too.

Floating-point numbers have a total order besides the usual one: every number gets a whole number,
so that numbers are ordered as usual, the negative zero comes below zero and values that are no
number come at the two ends.
-/

namespace PlaceSearch

def twoPow (n : Nat) : Nat := Nat.pow 2 n

def tenPow (n : Nat) : Nat := Nat.pow 10 n

namespace Decimal

/-- The value `± mantissa · 2 ^ exponent`; `isPower` says that the gap to the next number
towards zero is half the gap away from zero. -/
structure Binary where
  negative : Bool
  mantissa : Nat
  exponent : Int
  isPower : Bool
deriving DecidableEq, Repr

/-- What the bits of a floating-point number stand for. -/
inductive Reading where
  | finite (value : Binary)
  | infinite (negative : Bool)
  | notANumber
deriving DecidableEq, Repr

/-- The reading of a floating-point number, from its sign bit, its eleven exponent bits and its
fifty-two fraction bits. -/
def reading (x : Float) : Reading :=
  let bits : Nat := x.toBits.toNat
  let negative := bits / twoPow 63 == 1
  let biased : Nat := bits / twoPow 52 % twoPow 11
  let fraction : Nat := bits % twoPow 52
  if biased = 2047 then
    if fraction = 0 then .infinite negative else .notANumber
  else if biased = 0 then
    .finite ⟨negative, fraction, -1074, false⟩
  else
    .finite ⟨negative, twoPow 52 + fraction, (biased : Int) - 1075, fraction == 0 && biased != 1⟩

/-- The absolute value as a quotient of two whole numbers. -/
def Binary.quotient (b : Binary) : Nat × Nat :=
  if b.exponent < 0 then (b.mantissa, twoPow b.exponent.natAbs)
  else (b.mantissa * twoPow b.exponent.natAbs, 1)

/-- The place of a floating-point number in the total order: its bits without the sign, and
for a negative one their negation less one. -/
def rank (x : Float) : Int :=
  let bits : Nat := x.toBits.toNat
  if bits < twoPow 63 then bits else -((bits - twoPow 63 : Nat) : Int) - 1

def isFinite (x : Float) : Bool :=
  match reading x with
  | .finite _ => true
  | _ => false

end Decimal

end PlaceSearch
