/-!
# Searching texts

Looking for a text in another one: at its beginning, anywhere, or where it occurs last.
-/

namespace PlaceSearch.Text

/-- What follows a given beginning of a text. -/
def startsWith? : List Char → List Char → Option (List Char)
  | [], cs => some cs
  | _ :: _, [] => none
  | p :: ps, c :: cs => if p = c then startsWith? ps cs else none

theorem startsWith?_eq_some_iff {p cs r : List Char} :
    startsWith? p cs = some r ↔ cs = p ++ r := by
  induction p generalizing cs with
  | nil => simp [startsWith?, eq_comm]
  | cons a p ih =>
    cases cs with
    | nil => simp [startsWith?]
    | cons c cs =>
      by_cases h : a = c
      · simp [startsWith?, h, ih]
      · simp [startsWith?, h, eq_comm]

/-- Whether a text occurs in another. -/
def occurs (p : List Char) : List Char → Bool
  | [] => p.isEmpty
  | c :: cs => (startsWith? p (c :: cs)).isSome || occurs p cs

/-- The texts before and after the last occurrence of a text. -/
def splitLast? (p : List Char) : List Char → Option (List Char × List Char)
  | [] => none
  | c :: cs =>
    match splitLast? p cs with
    | some (before, after) => some (c :: before, after)
    | none => (startsWith? p (c :: cs)).map fun after => ([], after)

end PlaceSearch.Text
