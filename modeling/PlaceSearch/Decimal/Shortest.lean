import PlaceSearch.Decimal.Binary
import PlaceSearch.Decimal.Digits

/-!
# The shortest decimal that reads back

Among the decimals that lie in the interval of reals rounding to a floating-point number,
the ones with the fewest significant digits are found, and of these the nearest.  The search
looks at the two neighbours of the value on the grids of one, two, … seventeen digits.  Where
both are equally near, each kind of text has its own choice: positional text goes away from
zero, the numbers of a document go to the even digit.

## Main definitions

* `Scientific` — the decimal `significand · 10 ^ exponent`.
* `Tie` — which of two equally near decimals is taken.
* `shortest tie b` — the shortest decimal that reads back as `b`.
* `plain x` — positional text: never an exponent, no point without need.
* `numeral x` — the text of a number inside a document: always a point or an exponent, and
  an exponent only for magnitudes from `10 ^ 16` on or below `10 ^ -5`.
-/

namespace PlaceSearch.Decimal

/-- The decimal `significand · 10 ^ exponent`. -/
structure Scientific where
  significand : Nat
  exponent : Int
deriving DecidableEq, Repr

/-- The decimal with the zeros at the end of its significand moved to the exponent; `fuel`
bounds the number of zeros. -/
def Scientific.strip : Nat → Scientific → Scientific
  | 0, d => d
  | fuel + 1, d =>
    if d.significand % 10 = 0 then strip fuel ⟨d.significand / 10, d.exponent + 1⟩ else d

/-- The quotient `num / den` divided by a power of ten, again as a quotient. -/
def scaleDown (num den : Nat) (power : Int) : Nat × Nat :=
  if power < 0 then (num * tenPow power.natAbs, den) else (num, den * tenPow power.natAbs)

/-- The least exponent `e` with `num / den < 10 ^ e`, for a quotient above `10 ^ -340`. -/
def magnitude (num den : Nat) : Int :=
  (digitCount (num * tenPow 340 / den) : Int) - 340

/-- A grid point lies in the interval that rounds to `b`.  The point is `n · scaleDen /
scaleNum` relative to the value in quarter units of the last binary place: the bounds are
half a unit above and below, the lower one a quarter below a power of two; the ends belong
to the interval iff the mantissa is even. -/
def Binary.admits (b : Binary) (unit point : Nat) : Bool :=
  let low := (4 * b.mantissa - (if b.isPower then 1 else 2)) * unit
  let high := (4 * b.mantissa + 2) * unit
  let point := 4 * point
  if b.mantissa % 2 = 0 then decide (low ≤ point) && decide (point ≤ high)
  else decide (low < point) && decide (point < high)

/-- Which of two equally near decimals is taken: the one with the even last digit, or the
one further from zero. -/
inductive Tie where
  | toEven
  | awayFromZero
deriving DecidableEq, Repr

/-- Whether the lower one of two equally near neighbours is taken. -/
def Tie.takesLower (tie : Tie) (below : Nat) : Bool :=
  match tie with
  | .toEven => below % 2 == 0
  | .awayFromZero => false

/-- The better of the two neighbours of `num / den` on the grid of step `10 ^ power`, if one
of them rounds to `b`; the nearer one wins, and `tie` chooses between two equally near. -/
def Binary.onGrid (tie : Tie) (b : Binary) (power : Int) : Option Nat :=
  let (num, den) := b.quotient
  let (num, den) := scaleDown num den power
  let below := num / den
  let rest := num % den
  -- a grid point `n` is the value `n · den / num` times the mantissa
  let fits (n : Nat) : Bool := b.admits num (n * den * b.mantissa)
  match fits below, fits (below + 1) with
  | false, false => none
  | true, false => some below
  | false, true => some (below + 1)
  | true, true =>
    if 2 * rest < den || (2 * rest = den && tie.takesLower below) then some below
    else some (below + 1)

/-- The first grid with a point that rounds to `b`, from `count` digits on. -/
def Binary.search (tie : Tie) (b : Binary) (top : Int) : Nat → Nat → Scientific
  | 0, _ => ⟨0, 0⟩
  | fuel + 1, count =>
    let power := top - count
    match b.onGrid tie power with
    | some n => ⟨n, power⟩
    | none => search tie b top fuel (count + 1)

/-- The shortest decimal that reads back as `b`, without zeros at its end. -/
def shortest (tie : Tie) (b : Binary) : Scientific :=
  if b.mantissa = 0 then ⟨0, 0⟩
  else
    let (num, den) := b.quotient
    (b.search tie (magnitude num den) 17 1).strip 20

def signText (negative : Bool) : List Char :=
  if negative then ['-'] else []

/-- Positional text: the digits, with zeros up to the point and a point only in front of
digits that are not zero. -/
def Scientific.positional (d : Scientific) : List Char :=
  let ds := digits d.significand
  if 0 ≤ d.exponent then ds ++ List.replicate d.exponent.toNat '0'
  else
    let places := d.exponent.natAbs
    if places < ds.length then
      ds.take (ds.length - places) ++ '.' :: ds.drop (ds.length - places)
    else '0' :: '.' :: padLeft places ds

/-- Positional text of a floating-point number; of two equally near decimals it has the one
further from zero. -/
def plain (x : Float) : String :=
  match reading x with
  | .finite b =>
    String.ofList (signText b.negative ++
      (if b.mantissa = 0 then ['0'] else (shortest .awayFromZero b).positional))
  | .infinite negative => String.ofList (signText negative ++ ['i', 'n', 'f'])
  | .notANumber => "NaN"

/-- Text with an exponent: one digit, a point before further digits, `e`, a sign. -/
def Scientific.exponential (d : Scientific) : List Char :=
  let ds := digits d.significand
  let power := d.exponent + ds.length - 1
  let mantissa := match ds with
    | first :: rest@(_ :: _) => first :: '.' :: rest
    | _ => ds
  mantissa ++ 'e' :: (if power < 0 then '-' else '+') :: digits power.natAbs

/-- The text of a finite number inside a document: positional with at least one place after
the point while its first digit stands between `10 ^ -5` and `10 ^ 15`, else with an
exponent. -/
def Scientific.numeral (d : Scientific) : List Char :=
  let power := d.exponent + digitCount d.significand - 1
  if -5 ≤ power ∧ power ≤ 15 then
    if 0 ≤ d.exponent then d.positional ++ ['.', '0'] else d.positional
  else d.exponential

/-- The text of a floating-point number inside a document, if it is finite; of two equally
near decimals it has the one with the even last digit. -/
def numeral (x : Float) : Option String :=
  match reading x with
  | .finite b =>
    some (String.ofList (signText b.negative ++
      (if b.mantissa = 0 then ['0', '.', '0'] else (shortest .toEven b).numeral)))
  | _ => none

end PlaceSearch.Decimal
