import PlaceSearch.Text.Digit

/-!
# Blank characters

Texts are trimmed and cut into words at the characters with the property White_Space.
Between the words of a query the grammar knows a smaller class, `isGap`: blank, tab and the
two line ends.
-/

namespace PlaceSearch.Text

def blankRanges : List Range :=
  [ (0x9, 0xD), (0x20, 0x20), (0x85, 0x85), (0xA0, 0xA0), (0x1680, 0x1680),
    (0x2000, 0x200A), (0x2028, 0x2029), (0x202F, 0x202F), (0x205F, 0x205F),
    (0x3000, 0x3000) ]

def isBlank (c : Char) : Bool :=
  Range.covers blankRanges c

/-- Whether the character may stand between the words of a query. -/
def isGap (c : Char) : Bool :=
  c == ' ' || c == '\t' || c == '\r' || c == '\n'

/-- A character that may stand between words is blank. -/
theorem isBlank_of_isGap {c : Char} (h : isGap c = true) : isBlank c = true := by
  simp only [isGap, Bool.or_eq_true, beq_iff_eq] at h
  rcases h with ((rfl | rfl) | rfl) | rfl <;> decide

/-- The characters from the first one that is not blank on. -/
def trimStart (cs : List Char) : List Char :=
  cs.dropWhile isBlank

/-- The characters up to the last one that is not blank. -/
def trimEnd (cs : List Char) : List Char :=
  (trimStart cs.reverse).reverse

/-- The text without blanks at its two ends. -/
def trim (s : String) : String :=
  String.ofList (trimEnd (trimStart s.toList))

/-- The maximal runs of non-blank characters, after the characters `run` (latest first) of
an unfinished run. -/
def wordsFrom (run : List Char) : List Char → List (List Char)
  | [] => if run.isEmpty then [] else [run.reverse]
  | c :: cs =>
    if isBlank c then
      if run.isEmpty then wordsFrom [] cs else run.reverse :: wordsFrom [] cs
    else wordsFrom (c :: run) cs

/-- The maximal runs of non-blank characters of the text. -/
def words (s : String) : List String :=
  (wordsFrom [] s.toList).map String.ofList

end PlaceSearch.Text
