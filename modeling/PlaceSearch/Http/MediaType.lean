/-!
# Media types

A media type names a kind of content, such as `application/json; charset=utf-8`: a type, a
subtype that may end in a plus sign and a suffix, and parameters.
-/

namespace PlaceSearch

/-- A media type, in lower case. -/
structure MediaType where
  type : String
  subtype : String
  suffix : Option String
deriving DecidableEq, Repr

namespace MediaType

def isNameChar (c : Char) : Bool :=
  c.isAlphanum || "!#$%&'*+-.^_`|~".toList.contains c

def isQuotable (c : Char) : Bool :=
  32 ≤ c.toNat && c.toNat < 127

/-- What follows a quoted value after its opening quote.  The value has at least one
character, which may be a quote itself, and ends at the first quote after that one; nothing
is escaped in it. -/
def afterQuoted? : List Char → Option (List Char)
  | [] => none
  | c :: r =>
    if (c :: r.takeWhile (· != '"')).all isQuotable then (r.dropWhile (· != '"')).tail?
    else none

/-- What follows the value of a parameter: nothing, or the parameters after a semicolon. -/
def afterValue? (cs : List Char) : Option (List Char) :=
  let next : List Char → Option (List Char)
    | [] => some []
    | ';' :: r => some r
    | _ => none
  match cs with
  | '"' :: r => (afterQuoted? r).bind fun r => next (r.dropWhile (· == ' '))
  | _ =>
    if cs.head? = some ';' then none
    else next (cs.dropWhile isNameChar)

/-- Whether a text is a list of parameters; `fuel` bounds their number. -/
def areParameters : Nat → List Char → Bool
  | 0, cs => cs.isEmpty
  | fuel + 1, cs =>
    match cs.dropWhile (· == ' ') with
    | [] => true
    | cs =>
      if (cs.takeWhile isNameChar).isEmpty then false
      else match cs.dropWhile isNameChar with
        | '=' :: r => (afterValue? r).any (areParameters fuel)
        | _ => false

/-- The suffix of a subtype: what follows its last plus sign, unless that comes first. -/
def splitSuffix (subtype : List Char) : List Char × Option (List Char) :=
  let suffix := (subtype.reverse.takeWhile (· != '+')).reverse
  let front := subtype.take (subtype.length - suffix.length - 1)
  if suffix.length < subtype.length ∧ !front.isEmpty then (front, some suffix)
  else (subtype, none)

/-- Reading a media type. -/
def parse? (s : String) : Option MediaType :=
  let cs := s.toList
  let lower (cs : List Char) : String := String.ofList (cs.map Char.toLower)
  let type := cs.takeWhile isNameChar
  match cs.dropWhile isNameChar with
  | '/' :: r =>
    let subtype := r.takeWhile isNameChar
    let found : MediaType :=
      let (front, suffix) := splitSuffix subtype
      ⟨lower type, lower front, suffix.map lower⟩
    if type.isEmpty then none
    else match r.dropWhile isNameChar with
      | [] => some found
      | ';' :: r => if !subtype.isEmpty && areParameters r.length r then some found else none
      | _ => none
  | _ => none

def isJson (t : MediaType) : Bool :=
  t.type == "application" && (t.subtype == "json" || t.suffix == some "json")

end MediaType

end PlaceSearch
