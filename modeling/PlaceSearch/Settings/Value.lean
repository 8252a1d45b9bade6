import PlaceSearch.Decimal.Binary
import PlaceSearch.Decimal.Parse
import PlaceSearch.Json.Print
import PlaceSearch.Text.Lower

/-!
# Values of settings

A setting may be written in several ways: a number as a text, a truth value as a number, a
text as a number.  Fractions are rounded where a whole number is asked for; a whole number
that does not fit is refused.
-/

namespace PlaceSearch.Setting

def isWord (i : Int) : Bool :=
  -(twoPow 63 : Int) ≤ i && i < (twoPow 63 : Int)

def word? (s : String) : Option Bool :=
  let s := Text.lower s
  if s = "true" ∨ s = "on" ∨ s = "yes" then some true
  else if s = "false" ∨ s = "off" ∨ s = "no" then some false
  else none

def text? : Json → Option String
  | .str s => some s
  | .bool b => some (if b then "true" else "false")
  | .num (.whole i) => some (toString i)
  | .num (.real x) => some (Decimal.plain x)
  | _ => none

/-- The number that a text of digits names, with a plus sign in front or none. -/
def digits? (cs : List Char) : Option Nat :=
  match cs with
  | '+' :: ds => Decimal.value? ds
  | ds => Decimal.value? ds

def nat? : Json → Option Nat
  | .num (.whole i) => if 0 ≤ i then some i.toNat else none
  | .num (.real x) => some x.round.toUInt64.toNat
  | .bool b => some b.toNat
  | .str s =>
    match word? s with
    | some b => some b.toNat
    | none => (digits? s.toList).filter (· < twoPow 64)
  | _ => none

def nat32? (v : Json) : Option Nat :=
  (nat? v).filter (· < twoPow 32)

def int? : Json → Option Int
  | .num (.whole i) => if isWord i then some i else none
  | .num (.real x) => some x.round.toInt64.toInt
  | .bool b => some b.toNat
  | .str s =>
    match word? s with
    | some b => some b.toNat
    | none =>
      let value : Option Int := match s.toList with
        | '-' :: ds => (Decimal.value? ds).map fun n => -(n : Int)
        | cs => (digits? cs).map fun n => (n : Int)
      value.filter isWord
  | _ => none

def float? : Json → Option Float
  | .num n => some n.float
  | .bool b => some (if b then 1.0 else 0.0)
  | .str s =>
    match word? s with
    | some b => some (if b then 1.0 else 0.0)
    | none => Decimal.parse? s.toList
  | _ => none

def optional? {α : Type} (read? : Json → Option α) : Json → Option (Option α)
  | .null => some none
  | v => (read? v).map some

/-- A setting of a group: its name, and what its value does to the group. -/
structure Item (γ : Type) where
  name : String
  put? : Json → γ → Option γ

def item {γ α : Type} (name : String) (read? : Json → Option α) (set : α → γ → γ) : Item γ :=
  ⟨name, fun v g => (read? v).map (set · g)⟩

/-- A group of settings, by name or in order; those that are missing stay as they are at the
start. -/
def group? {γ : Type} (items : List (Item γ)) (start : γ) : Json → Option γ
  | .obj ms => items.foldlM (fun g i => match ms.lookup i.name with
      | some v => i.put? v g
      | none => some g) start
  | .arr vs => (items.zip vs).foldlM (fun g (i, v) => i.put? v g) start
  | _ => none

end PlaceSearch.Setting
