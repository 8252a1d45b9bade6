import PlaceSearch.Sorted

/-!
# Terms

A term of a query is a category of the provider or a phrase of free text.  Two terms with
one text but different kinds are different terms.
-/

namespace PlaceSearch

/-- The two kinds of terms; a category comes before a phrase of the same text. -/
inductive TermKind where
  | category
  | phrase
deriving DecidableEq, Repr

/-- A term of a query. -/
structure Term where
  kind : TermKind
  text : String
deriving DecidableEq, Repr

namespace Term

def category (text : String) : Term := ⟨.category, text⟩

def phrase (text : String) : Term := ⟨.phrase, text⟩

/-- Terms are ordered by text and then by kind. -/
instance : LT Term where
  lt a b := a.text < b.text ∨ (a.text = b.text ∧ a.kind = .category ∧ b.kind = .phrase)

instance : DecidableLT Term := fun a b =>
  inferInstanceAs (Decidable
    (a.text < b.text ∨ (a.text = b.text ∧ a.kind = .category ∧ b.kind = .phrase)))

def render (t : Term) : String :=
  match t.kind with
  | .category => t.text
  | .phrase => "@" ++ t.text ++ "@"

end Term

end PlaceSearch
