import PlaceSearch.Json.Print
import PlaceSearch.Json.Source

/-!
# Lists of texts

A list of texts is a document that is an array of quoted texts.  A text that reads no such
list is answered with a complaint: what is wrong at the first place where reading could not go
on, and the line and column of that place.  Lines are counted from one, and a column is the
number of bytes of its line that were looked at.
-/

namespace PlaceSearch.Json

/-- What is wrong at a place of a text: it ends too early, something else is asked for there,
or what stands there is broken. -/
inductive Mistake where
  | valueEnds
  | listEnds
  | textEnds
  | noValue
  | noWord
  | noSeparator
  | trailingComma
  | trailingText
  | badNumber
  | largeNumber
  | badEscape
  | controlCharacter
  | loneSurrogate
  | halfPair
  | otherKind (found wanted : String)
deriving DecidableEq, Repr

/-- The wording of a mistake. -/
def Mistake.message : Mistake → String
  | .valueEnds => "EOF while parsing a value"
  | .listEnds => "EOF while parsing a list"
  | .textEnds => "EOF while parsing a string"
  | .noValue => "expected value"
  | .noWord => "expected ident"
  | .noSeparator => "expected `,` or `]`"
  | .trailingComma => "trailing comma"
  | .trailingText => "trailing characters"
  | .badNumber => "invalid number"
  | .largeNumber => "number out of range"
  | .badEscape => "invalid escape"
  | .controlCharacter =>
    "control character (\\u0000-\\u001F) found while parsing a string"
  | .loneSurrogate => "lone leading surrogate in hex escape"
  | .halfPair => "unexpected end of hex escape"
  | .otherKind found wanted => "invalid type: " ++ found ++ ", expected " ++ wanted

/-- What is wrong with a text, and where: the part of the text from there on, and how many
bytes of it were looked at. -/
structure Complaint where
  mistake : Mistake
  rest : List Char
  seen : Nat := 0
deriving DecidableEq, Repr

namespace Complaint

/-- The number of bytes of some characters. -/
def byteLength (cs : List Char) : Nat :=
  (String.ofList cs).utf8ByteSize

def message (text : String) (c : Complaint) : String :=
  let bytes := text.toUTF8.toList
  let before := bytes.take (bytes.length - byteLength c.rest + c.seen)
  let line := before.count 10 + 1
  let column := (before.reverse.takeWhile (· != 10)).length
  c.mistake.message ++ " at line " ++ toString line ++ " column " ++ toString column

end Complaint

/-- What was read, and what follows it. -/
abbrev Reading (α : Type) := Except Complaint (α × List Char)

/-! ## Quoted texts -/

/-- The complaint about a quoted text that cannot be read, after its opening quote; `lead`
says that the first half of a surrogate pair stands in front. -/
def quotedComplaint (lead : Bool) : List Char → Complaint
  | [] => ⟨.textEnds, [], 0⟩
  | '\\' :: [] => ⟨.textEnds, [], 0⟩
  | '\\' :: 'u' :: a :: b :: c :: d :: r =>
    match Source.hexUnit a b c d with
    | none => ⟨.badEscape, a :: b :: c :: d :: r, 4⟩
    | some n =>
      if (0xDC00 ≤ n && n < 0xE000) != lead then ⟨.loneSurrogate, r, 0⟩
      else quotedComplaint (0xD800 ≤ n && n < 0xDC00) r
  | '\\' :: 'u' :: r =>
    if Complaint.byteLength r < 4 then ⟨.textEnds, [], 0⟩ else ⟨.badEscape, r, 4⟩
  | '\\' :: c :: r =>
    if lead then ⟨.halfPair, c :: r, 1⟩
    else if (Source.shortEscape c).isSome then quotedComplaint false r
    else ⟨.badEscape, c :: r, 1⟩
  | c :: r =>
    if lead then ⟨.halfPair, c :: r, 1⟩
    else if c.toNat < 0x20 then ⟨.controlCharacter, c :: r, 1⟩
    else quotedComplaint false r

/-- The quoted text after an opening quote. -/
def readQuoted (cs : List Char) : Reading String :=
  match Source.quoted cs with
  | some (some s, r) => .ok (s, r)
  | _ => .error (quotedComplaint false cs)

/-! ## Values of another kind -/

/-- What follows the given rest of a word. -/
def afterWord : List Char → List Char → Except Complaint (List Char)
  | [], cs => .ok cs
  | _ :: _, [] => .error ⟨.valueEnds, [], 0⟩
  | w :: ws, c :: cs => if w = c then afterWord ws cs else .error ⟨.noWord, c :: cs, 1⟩

/-- The complaint about a digit that is missing. -/
def noDigit (cs : List Char) : Complaint :=
  if cs.isEmpty then ⟨.valueEnds, [], 0⟩ else ⟨.badNumber, cs, 1⟩

/-- The complaint about an exponent or what stands in its place, if it is broken. -/
def powerComplaint (cs : List Char) : Complaint :=
  match cs.drop 1 with
  | '-' :: r | '+' :: r => noDigit r
  | r => noDigit r

/-- The complaint about a number that cannot be read. -/
def numberComplaint (cs : List Char) : Complaint :=
  let cs := if cs.head? = some '-' then cs.drop 1 else cs
  let whole := cs.takeWhile Char.isDigit
  let r := cs.dropWhile Char.isDigit
  if whole.isEmpty then noDigit cs
  else if whole.length > 1 && whole.head? == some '0' then ⟨.badNumber, cs.drop 1, 1⟩
  else match Source.placesOf r with
    | none => noDigit (r.drop 1)
    | some (_, r) => powerComplaint r

/-- What follows the first digit of an exponent with which it is too large; `n` is the value
of the digits in front. -/
def afterOverflow (n : Nat) : List Char → List Char
  | [] => []
  | c :: cs =>
    let m := 10 * n + Decimal.digitValue c
    if maxExponent < m then cs else afterOverflow m cs

/-- How a number is named in a complaint. -/
def Number.described : Number → String
  | .whole n => "integer `" ++ toString n ++ "`"
  | x => "floating point `" ++ x.text ++ "`"

/-- The complaint about a number in the place of a value of another kind. -/
def numberInstead (wanted : String) (cs : List Char) : Complaint :=
  match Source.numeralOf cs with
  | none => numberComplaint cs
  | some (t, r) =>
    match t.number? with
    | some n => ⟨.otherKind n.described wanted, r, 0⟩
    | none =>
      let power := (t.power.map (·.2)).getD []
      ⟨.largeNumber, afterOverflow 0 power ++ r, 0⟩

/-- A character as it is written in a complaint. -/
def describeChar (c : Char) : List Char :=
  match c with
  | '\x00' => ['\\', '0']
  | '\t' => ['\\', 't']
  | '\n' => ['\\', 'n']
  | '\r' => ['\\', 'r']
  | '"' => ['\\', '"']
  | '\\' => ['\\', '\\']
  | c =>
    if c.toNat < 0x20 ∨ c.toNat = 0x7F then
      '\\' :: 'u' :: '{' :: Nat.toDigits 16 c.toNat ++ ['}']
    else [c]

/-- How a text is named in a complaint. -/
def describeText (s : String) : String :=
  "string " ++ String.ofList ('"' :: s.toList.flatMap describeChar ++ ['"'])

/-- The complaint about what stands in the place of a value of another kind. -/
def valueInstead (wanted : String) (cs : List Char) : Complaint :=
  let word (rest found : String) (r : List Char) : Complaint :=
    match afterWord rest.toList r with
    | .ok r => ⟨.otherKind found wanted, r, 0⟩
    | .error c => c
  match cs with
  | [] => ⟨.valueEnds, [], 0⟩
  | 'n' :: r => word "ull" "null" r
  | 't' :: r => word "rue" "boolean `true`" r
  | 'f' :: r => word "alse" "boolean `false`" r
  | '[' :: _ => ⟨.otherKind "sequence" wanted, cs, 0⟩
  | '{' :: _ => ⟨.otherKind "map" wanted, cs, 0⟩
  | '"' :: r =>
    match readQuoted r with
    | .ok (s, r) => ⟨.otherKind (describeText s) wanted, r, 0⟩
    | .error c => c
  | c :: _ => if c == '-' || c.isDigit then numberInstead wanted cs else ⟨.noValue, cs, 1⟩

/-! ## Lists -/

/-- A quoted text. -/
def readText (cs : List Char) : Reading String :=
  match cs with
  | '"' :: r => readQuoted r
  | cs => .error (valueInstead "a string" cs)

/-- The place of the next item, after the comma in front of it. -/
def afterComma (cs : List Char) : Except Complaint (List Char) :=
  match cs with
  | ',' :: r =>
    match Source.skipSpace r with
    | ']' :: r => .error ⟨.trailingComma, ']' :: r, 1⟩
    | r => .ok r
  | cs => .error ⟨.noSeparator, cs, 1⟩

/-- The texts up to a closing bracket, after the opening one or after a text; `fuel` bounds
their number. -/
def readItems : Nat → Bool → List Char → Except Complaint (List String × List Char)
  | 0, _, _ => .error ⟨.listEnds, [], 0⟩
  | fuel + 1, first, cs =>
    match Source.skipSpace cs with
    | [] => .error ⟨.listEnds, [], 0⟩
    | ']' :: r => .ok ([], r)
    | cs => do
      let item ← if first then pure cs else afterComma cs
      let (s, r) ← readText item
      let (ss, r) ← readItems fuel false r
      return (s :: ss, r)

/-- The list of texts that a text reads. -/
def readTexts (s : String) : Except Complaint (List String) :=
  match Source.skipSpace s.toList with
  | '[' :: r => do
    let (ss, r) ← readItems (r.length + 1) true r
    let r := Source.skipSpace r
    if r.isEmpty then return ss else throw ⟨.trailingText, r, 1⟩
  | cs => .error (valueInstead "a sequence" cs)

end PlaceSearch.Json
