/-!
# Planned calls

A descriptor is the shape of one request to the provider: what to include, what to exclude
and which of the two searches to use.

## Main definitions

* `SearchKind` — search by category or by text.
* `CallDescriptor` — the shape of a request.
* `CallDescriptor.render` — its text.
-/

namespace PlaceSearch

/-- The two searches of the provider. -/
inductive SearchKind where
  | category
  | text
deriving DecidableEq, Repr

def SearchKind.name : SearchKind → String
  | .category => "category"
  | .text => "text"

/-- The shape of one request to the provider. -/
structure CallDescriptor where
  included : List String
  excluded : List String
  kind : SearchKind
deriving DecidableEq, Repr

namespace CallDescriptor

/-- Whether a text is included or excluded. -/
def mentions (d : CallDescriptor) (text : String) : Bool :=
  d.included.contains text || d.excluded.contains text

def render (d : CallDescriptor) : String :=
  d.kind.name ++ " +[" ++ ", ".intercalate d.included ++ "] -["
    ++ ", ".intercalate d.excluded ++ "]"

/-- Whether a place with the given types is an answer to a search by category: it has one of
the included types, or none is included, and it has no excluded one. -/
def answers (d : CallDescriptor) (types : List String) : Bool :=
  (d.included.isEmpty || d.included.any types.contains) && !d.excluded.any types.contains

end CallDescriptor

end PlaceSearch
