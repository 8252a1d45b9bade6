import PlaceSearch.Settings.Value
import PlaceSearch.Text.Find
import PlaceSearch.Text.Lower

/-!
# Layers of settings

Settings come in layers, each a tree of named values, and a later layer wins over an earlier
one.  Groups are merged name by name; any other value replaces what was there.

A name at the top of a layer may be a path: names with dots between them, and indices in
brackets after a name or another index, such as `walker.min_features` or `server[0]`.  A name
that is no path stands for itself.  The variables of the environment that begin with the name
of the program make a layer: their names are taken in lower case, and two underscores separate
the names of a path.
-/

namespace PlaceSearch.Layer

mutual

/-- A tree with another one on top. -/
def overlay (below : Json) : Json → Json
  | .obj ms => .obj (overlayMembers (below.members?.getD []) ms)
  | v => v

/-- The members of a group with others on top. -/
def overlayMembers (below : List (String × Json)) : List (String × Json) → List (String × Json)
  | [] => below
  | (k, v) :: ms =>
    overlayMembers (Json.putMember k (overlay ((below.lookup k).getD .null) v) below) ms

end

/-! ## Paths -/

/-- A step into a tree: to the member of a name, or to the item at an index, which counts from
the end if it is negative. -/
inductive Step where
  | name (k : String)
  | index (i : Int)
deriving DecidableEq, Repr

/-- Some items with a place for an index, and that place.  Missing items are `null`, behind
the others or, for a negative index, in front of them. -/
def reach (i : Int) (vs : List Json) : List Json × Nat :=
  if 0 ≤ i then (vs ++ List.replicate (i.toNat + 1 - vs.length) .null, i.toNat)
  else if i.natAbs ≤ vs.length then (vs, vs.length - i.natAbs)
  else (List.replicate (i.natAbs - vs.length) .null ++ vs, 0)

/-- A tree with another one on top of the part that a path leads to; what is in the way
becomes a group or a list, as the path goes on. -/
def overlayAt (below : Json) (v : Json) : List Step → Json
  | [] => overlay below v
  | .name k :: path =>
    let ms := below.members?.getD []
    .obj (Json.putMember k (overlayAt ((ms.lookup k).getD .null) v path) ms)
  | .index i :: path =>
    let (vs, place) := reach i (below.items?.getD [])
    .arr (vs.set place (overlayAt ((vs[place]?).getD .null) v path))

/-- Whether the character may stand in a name of a path. -/
def isNameChar (c : Char) : Bool :=
  c.isAlphanum || c == '_' || c == '-'

/-- Whether the character may stand around the number of an index. -/
def isPadding (c : Char) : Bool :=
  c == ' ' || c == '\t'

/-- The index in brackets after an opening bracket, and what follows it. -/
def index? (cs : List Char) : Option (Int × List Char) := do
  let cs := cs.dropWhile isPadding
  let (negative, cs) := match cs with
    | '-' :: r => (true, r)
    | r => (false, r)
  let n ← Decimal.value? (cs.takeWhile Char.isDigit)
  let i : Int := if negative then -(n : Int) else n
  match (cs.dropWhile Char.isDigit).dropWhile isPadding with
  | ']' :: r => if Setting.isWord i then some (i, r) else none
  | _ => none

/-- The steps that follow the first name of a path.  `fuel` bounds their number. -/
def steps? : Nat → List Char → Option (List Step)
  | _, [] => some []
  | fuel + 1, '.' :: r =>
    let k := r.takeWhile isNameChar
    if k.isEmpty then none
    else (steps? fuel (r.dropWhile isNameChar)).map (.name (String.ofList k) :: ·)
  | fuel + 1, '[' :: r =>
    (index? r).bind fun (i, r) => (steps? fuel r).map (.index i :: ·)
  | _, _ => none

/-- The path that a name at the top of a layer stands for. -/
def path (name : String) : List Step :=
  let rest := name.toList
  match steps? (rest.length + 1) ('.' :: rest) with
  | some steps => steps
  | none => [.name name]

/-- A tree with the values of a layer on top. -/
def add (tree : Json) (layer : List (String × Json)) : Json :=
  layer.foldl (fun tree (name, v) => overlayAt tree v (path name)) tree

/-! ## The environment -/

/-- What separates the names of a path in the environment. -/
def separator : String := "__"

/-- The name of a variable as a path; none if it does not begin with the name of the
program. -/
def pathOf? (program name : String) : Option String :=
  (Text.startsWith? (Text.lower (program ++ separator)).toList (Text.lower name).toList).map
    fun rest => ".".intercalate ((String.ofList rest).splitOn separator)

/-- The layer of some variables of the environment. -/
def ofEnvironment (program : String) (environment : List (String × String)) :
    List (String × Json) :=
  environment.filterMap fun (name, value) =>
    (pathOf? program name).map fun key => (key, .str value)

end PlaceSearch.Layer
