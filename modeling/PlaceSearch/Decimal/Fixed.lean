import PlaceSearch.Decimal.Binary
import PlaceSearch.Decimal.Digits

/-!
# Decimals with a fixed number of places

The exact value of a floating-point number, rounded to a given number of places; a half goes
to the even neighbour.  The sign of the number is kept, also where all digits are zero.
-/

namespace PlaceSearch.Decimal

/-- The whole number nearest to `num / den`; a half goes to the even neighbour. -/
def roundHalfEven (num den : Nat) : Nat :=
  let below := num / den
  let rest := num % den
  if 2 * rest < den || (2 * rest = den && below % 2 = 0) then below else below + 1

/-- The digits of `n / 10 ^ places`, with exactly that many places. -/
def placed (places n : Nat) : List Char :=
  let whole := digits (n / tenPow places)
  if places = 0 then whole else whole ++ '.' :: padLeft places (digits (n % tenPow places))

/-- The text of a number with a fixed number of places. -/
def fixed (places : Nat) (x : Float) : String :=
  match reading x with
  | .finite b =>
    let (num, den) := b.quotient
    String.ofList ((if b.negative then ['-'] else []) ++
      placed places (roundHalfEven (num * tenPow places) den))
  | .infinite negative => if negative then "-inf" else "inf"
  | .notANumber => "NaN"

end PlaceSearch.Decimal
