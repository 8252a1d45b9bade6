/-!
# Decimal digits of whole numbers

Whole numbers are written in decimal digits, filled up with zeros in front where a width is asked
for, and read from texts of ASCII digits.
-/

namespace PlaceSearch.Decimal

/-- The decimal digits of a whole number, most significant first. -/
def digits (n : Nat) : List Char :=
  Nat.toDigits 10 n

/-- The number of decimal digits; zero has one. -/
def digitCount (n : Nat) : Nat :=
  (digits n).length

/-- The characters with zeros in front, up to the width. -/
def padLeft (width : Nat) (cs : List Char) : List Char :=
  List.replicate (width - cs.length) '0' ++ cs

theorem length_padLeft (width : Nat) (cs : List Char) :
    (padLeft width cs).length = max width cs.length := by
  simp [padLeft]; omega

def digitValue (c : Char) : Nat :=
  c.toNat - '0'.toNat

/-- The number whose digits are `acc` followed by the characters. -/
def valueFrom (acc : Nat) (cs : List Char) : Nat :=
  cs.foldl (fun n c => 10 * n + digitValue c) acc

/-- The number that a non-empty text of ASCII digits stands for. -/
def value? (cs : List Char) : Option Nat :=
  if cs.isEmpty || !cs.all Char.isDigit then none else some (valueFrom 0 cs)

/-- The decimal text of a whole number with its sign. -/
def signedDigits (n : Int) : List Char :=
  if n < 0 then '-' :: digits n.natAbs else digits n.natAbs

end PlaceSearch.Decimal
