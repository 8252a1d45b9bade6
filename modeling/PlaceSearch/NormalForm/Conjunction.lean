/-!
# Conjunctions over symbols

While a query is brought into normal form its terms are small numbers, and a conjunction is a
pair of bit masks: bit `s` of the first means symbol `s`, bit `s` of the second its negation.

## Main definitions

* `Conjunction` — the two masks.
* `Conjunction.meet` — the conjunction of two.
* `Conjunction.subsumes` — whether every literal of one occurs in another.
* `Conjunction.merge?` — `X & v` and `X & ~v` become `X`.
* `Conjunction.eval` — its truth under an assignment of the symbols.
-/

namespace PlaceSearch

/-- A conjunction over symbols. -/
structure Conjunction where
  pos : Nat
  neg : Nat
deriving DecidableEq, Repr

namespace Conjunction

/-- The mask that holds one symbol. -/
def bit (s : Nat) : Nat :=
  1 <<< s

/-- The conjunction without literals. -/
def top : Conjunction := ⟨0, 0⟩

/-- The conjunction of one literal. -/
def literal (s : Nat) (negated : Bool) : Conjunction :=
  if negated then ⟨0, bit s⟩ else ⟨bit s, 0⟩

/-- The truth of a conjunction when exactly the symbols of a mask hold. -/
def eval (holds : Nat) (c : Conjunction) : Bool :=
  c.pos &&& holds == c.pos && c.neg &&& holds == 0

/-- Whether some symbol occurs with both signs. -/
def isContradiction (c : Conjunction) : Bool :=
  c.pos &&& c.neg != 0

/-- The literals of both. -/
def meet (c d : Conjunction) : Conjunction :=
  ⟨c.pos ||| d.pos, c.neg ||| d.neg⟩

/-- Whether every literal of the first also occurs in the second. -/
def subsumes (c d : Conjunction) : Bool :=
  c.pos &&& d.pos == c.pos && c.neg &&& d.neg == c.neg

/-- Whether a mask holds exactly one symbol. -/
def isSingle (mask : Nat) : Bool :=
  mask != 0 && mask &&& (mask - 1) == 0

/-- What two conjunctions have in common, if they differ in the sign of exactly one
symbol. -/
def merge? (c d : Conjunction) : Option Conjunction :=
  let flipped := c.pos ^^^ d.pos
  if isSingle flipped && flipped == c.neg ^^^ d.neg then some ⟨c.pos &&& d.pos, c.neg &&& d.neg⟩
  else none

end Conjunction

end PlaceSearch
