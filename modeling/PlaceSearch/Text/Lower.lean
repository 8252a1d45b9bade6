import PlaceSearch.Text.Cased
import PlaceSearch.Text.LowerTable

/-!
# Lower case

The full lower-case mapping of a text.  Every character is mapped by itself, with two
exceptions: the dotted capital I becomes two characters, and a capital sigma becomes the
final small sigma at the end of a word.
-/

namespace PlaceSearch.Text

/-- The small form of a character, without regard to its neighbours. -/
def lowerChar (c : Char) : List Char :=
  if c.toNat < 0x80 then [c.toLower]
  else if c.toNat = 0x130 then ['i', Char.ofNat 0x307]
  else match lowerRuns.find? (·.holds c.toNat) with
    | some r => [Char.ofNat (c.toNat + r.shift).toNat]
    | none => [c]

/-- Whether the nearest character that is not case-ignorable is cased. -/
def nextIsCased (cs : List Char) : Bool :=
  match cs.dropWhile isCaseIgnorable with
  | c :: _ => isCased c
  | [] => false

/-- Whether a capital sigma ends a word here: a cased character before it and none after. -/
def isWordFinal (before after : List Char) : Bool :=
  nextIsCased before && !nextIsCased after

/-- The rest of a text in lower case, `before` being what precedes it, nearest first. -/
def lowerFrom (before : List Char) : List Char → List Char
  | [] => []
  | c :: cs =>
    (if c = 'Σ' then (if isWordFinal before cs then ['ς'] else ['σ']) else lowerChar c)
      ++ lowerFrom (c :: before) cs

def lower (s : String) : String :=
  String.ofList (lowerFrom [] s.toList)

end PlaceSearch.Text
