import PlaceSearch.Decimal.Digits

/-!
# Reading decimals

The floating-point number nearest to a decimal text.  A sign, digits with or without a point
and an exponent may stand; at least one digit before the exponent must.  The words for
infinity and for no number are read in any letter case.
-/

namespace PlaceSearch.Decimal

/-- The floating-point number nearest to `n · 10 ^ e`. -/
def nearest (n : Nat) (e : Int) : Float :=
  if n = 0 then 0.0
  else if (digitCount n : Int) + e > 310 then Float.ofBits 0x7FF0000000000000
  else if (digitCount n : Int) + e < -330 then 0.0
  else Float.ofScientific n (e < 0) e.natAbs

/-- An exponent: a sign or none, then digits only. -/
def exponent? (cs : List Char) : Option Int :=
  match cs with
  | '-' :: ds => (value? ds).map fun n => -(n : Int)
  | '+' :: ds => (value? ds).map fun n => (n : Int)
  | ds => (value? ds).map fun n => (n : Int)

/-- The number nearest to a text of digits, a point and an exponent, without a sign. -/
def unsigned? (cs : List Char) : Option Float :=
  let whole := cs.takeWhile Char.isDigit
  let rest := cs.dropWhile Char.isDigit
  let (places, rest) := match rest with
    | '.' :: r => (r.takeWhile Char.isDigit, r.dropWhile Char.isDigit)
    | r => ([], r)
  if whole.isEmpty && places.isEmpty then none
  else
    let n := valueFrom 0 (whole ++ places)
    match rest with
    | [] => some (nearest n (-(places.length : Int)))
    | c :: es =>
      if c = 'e' ∨ c = 'E' then (exponent? es).map fun e => nearest n (e - places.length)
      else none

/-- The number that a word stands for, in any letter case. -/
def word? (cs : List Char) : Option Float :=
  let w := String.ofList (cs.map Char.toLower)
  if w = "inf" ∨ w = "infinity" then some (Float.ofBits 0x7FF0000000000000)
  else if w = "nan" then some (Float.ofBits 0x7FF8000000000000)
  else none

/-- The floating-point number nearest to a decimal text. -/
def parse? (cs : List Char) : Option Float :=
  let (negative, rest) := match cs with
    | '-' :: r => (true, r)
    | '+' :: r => (false, r)
    | r => (false, r)
  ((unsigned? rest).orElse fun _ => word? rest).map fun x => if negative then -x else x

end PlaceSearch.Decimal
