import PlaceSearch.Error
import PlaceSearch.Json.Parse
import PlaceSearch.Table
import PlaceSearch.Text.Lower

/-!
# Popularity of categories

A table of densities by term, written as an object of numbers, in groups nested to any depth.
Groups have no meaning of their own: their members are taken out in the order of names, and
of two members with one name the later wins.  Terms are then looked up in lower case.
-/

namespace PlaceSearch

/-- Densities by term, in lower case. -/
structure Popularity where
  densities : Table Float

namespace Popularity

def empty : Popularity := ⟨[]⟩

/-- The density of a term that is not in a table. -/
def defaultDensity : Float := 1.0

/-- The density of a term. -/
def density (p : Popularity) (term : String) : Float :=
  (p.densities.get? term).getD defaultDensity

def size (p : Popularity) : Nat :=
  p.densities.length

/-- The table of some terms, which are put in lower case one after the other; of two that
become one the later wins. -/
def ofPairs (ps : List (String × Float)) : Popularity :=
  ⟨Table.ofPairs (ps.map fun (t, d) => (Text.lower t, d))⟩

mutual

/-- The densities in a group, added to a table. -/
def flatten : Json → Table Float → Except Error (Table Float)
  | .obj ms, t => flattenMembers ms t
  | _, _ => .error (.config .popularityNotObject)

/-- The densities in the members of a group, added to a table. -/
def flattenMembers : List (String × Json) → Table Float → Except Error (Table Float)
  | [], t => .ok t
  | (k, .num n) :: ms, t => flattenMembers ms (t.put k n.float)
  | (_, .obj group) :: ms, t =>
    match flattenMembers group t with
    | .ok t => flattenMembers ms t
    | .error e => .error e
  | (k, _) :: _, _ => .error (.config (.popularityValue k))

end

def ofText (s : String) : Except Error Popularity :=
  match Json.parse? s with
  | none => .error (.persistence "the popularity table is no JSON text")
  | some v => (flatten v []).map ofPairs

/-- The table that a file reads, which may be missing. -/
def ofFile (file : Option String) : Except Error Popularity :=
  match file with
  | none => .error (.config .unreadable)
  | some text => ofText text

end Popularity

end PlaceSearch
