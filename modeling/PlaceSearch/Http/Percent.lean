import PlaceSearch.Json.Source

/-!
# Percent encoding

A byte may be written as a percent sign and two hexadecimal digits.  A text is encoded byte
by byte in UTF-8.
-/

namespace PlaceSearch.Percent

/-- The bytes that some bytes with escapes stand for.  A percent sign that two hexadecimal
digits do not follow stands for itself. -/
def decodeBytes : List UInt8 → List UInt8
  | [] => []
  | [x] => [x]
  | [x, y] => [x, y]
  | x :: y :: z :: r =>
    let digit (b : UInt8) : Option Nat := Json.Source.hexValue (Char.ofNat b.toNat)
    if Char.ofNat x.toNat = '%' then
      match digit y, digit z with
      | some m, some n => UInt8.ofNat (16 * m + n) :: decodeBytes r
      | _, _ => x :: decodeBytes (y :: z :: r)
    else x :: decodeBytes (y :: z :: r)

/-- The text that an encoded text stands for, unless its bytes are no text. -/
def decode? (s : String) : Option String :=
  String.fromUTF8? ⟨(decodeBytes s.toUTF8.toList).toArray⟩

def hexDigit (n : Nat) : Char :=
  if n < 10 then Char.ofNat ('0'.toNat + n) else Char.ofNat ('A'.toNat + (n - 10))

def escape (b : UInt8) : List Char :=
  ['%', hexDigit (b.toNat / 16), hexDigit (b.toNat % 16)]

/-- The bytes of a text, those that are ASCII characters of a kind as they are and all others
escaped. -/
def encode (plain : Char → Bool) (s : String) : String :=
  String.ofList <| s.toUTF8.toList.flatMap fun b =>
    let c := Char.ofNat b.toNat
    if b.toNat < 128 ∧ plain c then [c] else escape b

def isFormChar (c : Char) : Bool :=
  c.isAlphanum || c == '*' || c == '-' || c == '.' || c == '_'

/-- A text as in a form: a blank is written as a plus sign. -/
def encodeForm (s : String) : String :=
  String.ofList <| (encode (fun c => isFormChar c || c == ' ') s).toList.map fun c =>
    if c == ' ' then '+' else c

/-- Pairs of texts as in a form. -/
def encodePairs (ps : List (String × String)) : String :=
  "&".intercalate (ps.map fun (k, v) => encodeForm k ++ "=" ++ encodeForm v)

end PlaceSearch.Percent
