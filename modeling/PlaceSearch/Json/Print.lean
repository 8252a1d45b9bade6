import PlaceSearch.Decimal.Shortest
import PlaceSearch.Json.Value

/-!
# Writing documents

The shortest text of a value: no blanks, members in order, quotes, backslashes and control
characters escaped, all else as it stands.
-/

namespace PlaceSearch.Json

/-- The text of a number. -/
def Number.text : Number → String
  | .whole n => String.ofList (Decimal.signedDigits n)
  | .real x => (Decimal.numeral x).getD "null"

def hexDigit (n : Nat) : Char :=
  if n < 10 then Char.ofNat ('0'.toNat + n) else Char.ofNat ('a'.toNat + (n - 10))

/-- The text of a character between quotes. -/
def escapeChar (c : Char) : List Char :=
  match c with
  | '"' => ['\\', '"']
  | '\\' => ['\\', '\\']
  | '\n' => ['\\', 'n']
  | '\r' => ['\\', 'r']
  | '\t' => ['\\', 't']
  | '\x08' => ['\\', 'b']
  | '\x0c' => ['\\', 'f']
  | c =>
    if c.toNat < 0x20 then
      ['\\', 'u', '0', '0', hexDigit (c.toNat / 16), hexDigit (c.toNat % 16)]
    else [c]

/-- The text between quotes. -/
def quote (s : String) : String :=
  String.ofList ('"' :: s.toList.flatMap escapeChar ++ ['"'])

mutual

/-- The text of a value. -/
def print : Json → String
  | .null => "null"
  | .bool b => if b then "true" else "false"
  | .num n => n.text
  | .str s => quote s
  | .arr xs => "[" ++ ",".intercalate (printItems xs) ++ "]"
  | .obj ms => "\x7b" ++ ",".intercalate (printMembers ms) ++ "\x7d"

/-- The texts of some items. -/
def printItems : List Json → List String
  | [] => []
  | x :: xs => print x :: printItems xs

/-- The texts of some members. -/
def printMembers : List (String × Json) → List String
  | [] => []
  | (k, x) :: ms => (quote k ++ ":" ++ print x) :: printMembers ms

end

end PlaceSearch.Json
