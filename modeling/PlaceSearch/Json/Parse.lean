import PlaceSearch.Json.Source
import PlaceSearch.Json.Value

/-!
# Reading documents

The value of a text that is one whole document.  Arrays and objects may be nested 127 deep;
numbers must not be too large and texts must not hold half a surrogate pair.
-/

namespace PlaceSearch.Json

namespace Source

mutual

/-- The value of a document as written, nested less than `depth` deep. -/
def valueWithin (depth : Nat) : Source → Option Json
  | .null => some .null
  | .bool b => some (.bool b)
  | .num n => n.map .num
  | .str s => s.map .str
  | .arr xs closed =>
    if depth ≤ 1 ∨ !closed then none else (itemsWithin (depth - 1) xs).map .arr
  | .obj ms closed =>
    if depth ≤ 1 ∨ !closed then none
    else (membersWithin (depth - 1) ms).map Json.object
  | .broken => none

/-- The values of some items. -/
def itemsWithin (depth : Nat) : List Source → Option (List Json)
  | [] => some []
  | x :: xs =>
    match valueWithin depth x, itemsWithin depth xs with
    | some v, some vs => some (v :: vs)
    | _, _ => none

/-- The values of some members. -/
def membersWithin (depth : Nat) : List (Source × Source) → Option (List (String × Json))
  | [] => some []
  | (k, x) :: ms =>
    match k, valueWithin depth x, membersWithin depth ms with
    | .str (some k), some v, some vs => some ((k, v) :: vs)
    | _, _, _ => none

end

/-- The value of a document as written. -/
def value? (x : Source) : Option Json :=
  x.valueWithin 128

end Source

mutual

/-- The document that a value is written as. -/
def written : Json → Source
  | .null => .null
  | .bool b => .bool b
  | .num n => .num (some n)
  | .str s => .str (some s)
  | .arr vs => .arr (writtenItems vs) true
  | .obj ms => .obj (writtenMembers ms) true

/-- The documents that some values are written as. -/
def writtenItems : List Json → List Source
  | [] => []
  | v :: vs => written v :: writtenItems vs

/-- The names and documents that some members are written as. -/
def writtenMembers : List (String × Json) → List (Source × Source)
  | [] => []
  | (k, v) :: ms => (.str (some k), written v) :: writtenMembers ms

end

/-- The value of a text that is one whole document. -/
def parse? (s : String) : Option Json :=
  let (x, rest) := Source.ofText s
  if (Source.skipSpace rest).isEmpty then x.value? else none

end PlaceSearch.Json
