import PlaceSearch.Decimal.Binary
import PlaceSearch.Decimal.Digits
import PlaceSearch.Error
import PlaceSearch.Text.Blank
import PlaceSearch.Text.Find

/-!
# Resume tokens

A token says where a walk over a plan goes on: the row, and the provider's cursor of the page
of that row, if it is not the first.  Its text is the cursor, a separator and the number of
the row.  A text without the separator is a bare cursor at the first row.
-/

namespace PlaceSearch

/-- The provider's cursor, if any, and the row of the plan. -/
structure ResumeToken where
  cursor : Option String := none
  row : Nat := 0
deriving DecidableEq, Repr

namespace ResumeToken

/-- The token of a cursor and a row; the empty cursor is none. -/
def of (cursor : Option String) (row : Nat) : ResumeToken :=
  ⟨cursor.filter (!·.isEmpty), row⟩

def separator : String := "@#$"

def encode (t : ResumeToken) : String :=
  t.cursor.getD "" ++ separator ++ toString t.row

def maxRow : Nat := twoPow 64 - 1

/-- The row that a text of ASCII digits names; a plus sign may stand in front. -/
def row? (cs : List Char) : Option Nat :=
  let ds := match cs with
    | '+' :: ds => ds
    | ds => ds
  (Decimal.value? ds).filter (· ≤ maxRow)

/-- The token that a text reads; no text, or one of blanks only, is the beginning of the
plan. -/
def decode (text : Option String) : Except Error ResumeToken :=
  let trimmed := Text.trim (text.getD "")
  if trimmed.isEmpty then .ok {}
  else match Text.splitLast? separator.toList trimmed.toList with
    | none => .ok (of (some trimmed) 0)
    | some (cursor, index) =>
      match row? index with
      | some row => .ok (of (some (String.ofList cursor)) row)
      | none => .error (.token (String.ofList index))

end ResumeToken

end PlaceSearch
