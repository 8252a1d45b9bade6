import PlaceSearch.Json.Number

/-!
# Document values

The values a document can hold.  The members of an object are kept in increasing order of
their names, one per name.

## Main definitions

* `Json` — a document value.
* `Json.object ms` — the object with the given members; of two with one name the later wins.
* `Json.get? k`, `Json.text?`, `Json.float?`, `Json.nat?`, `Json.items?` — partial views.
-/

namespace PlaceSearch

/-- A document value. -/
inductive Json where
  | null
  | bool (b : Bool)
  | num (n : Json.Number)
  | str (s : String)
  | arr (items : List Json)
  | obj (members : List (String × Json))
deriving Inhabited

namespace Json

/-- The members with one more, at its place in the order of names; a member of the same name
is replaced. -/
def putMember (k : String) (v : Json) : List (String × Json) → List (String × Json)
  | [] => [(k, v)]
  | (k', v') :: ms =>
    if k < k' then (k, v) :: (k', v') :: ms
    else if k = k' then (k, v) :: ms
    else (k', v') :: putMember k v ms

/-- The object with the given members; of two with one name the later wins. -/
def object (ms : List (String × Json)) : Json :=
  .obj (ms.foldl (fun acc m => putMember m.1 m.2 acc) [])

def get? (k : String) : Json → Option Json
  | .obj ms => ms.lookup k
  | _ => none

def text? : Json → Option String
  | .str s => some s
  | _ => none

/-- The truth value, if the value is one. -/
def bool? : Json → Option Bool
  | .bool b => some b
  | _ => none

/-- The number as a floating-point number, if the value is a number. -/
def float? : Json → Option Float
  | .num n => some n.float
  | _ => none

/-- The number, if the value is a whole number that is not negative. -/
def nat? : Json → Option Nat
  | .num n => n.nat?
  | _ => none

/-- The items, if the value is an array. -/
def items? : Json → Option (List Json)
  | .arr xs => some xs
  | _ => none

/-- The members, if the value is an object. -/
def members? : Json → Option (List (String × Json))
  | .obj ms => some ms
  | _ => none

/-- Whether the value is an object. -/
def isObject : Json → Bool
  | .obj _ => true
  | _ => false

/-- The value of a member that is a text. -/
def textAt? (k : String) (v : Json) : Option String :=
  (v.get? k).bind text?

/-- A text, or nothing. -/
def ofText? (s : Option String) : Json :=
  s.elim .null .str

/-- A list of texts. -/
def ofTexts (ss : List String) : Json :=
  .arr (ss.map .str)

/-- A whole number that is not negative. -/
def ofNat (n : Nat) : Json :=
  .num (.whole n)

/-- A floating-point number. -/
def ofFloat (x : Float) : Json :=
  .num (.real x)

end Json

end PlaceSearch
