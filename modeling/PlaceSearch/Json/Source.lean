import PlaceSearch.Json.Number

/-!
# Documents as written

A text is read into a tree that keeps the order of members, repeated names and the place
where the text stops being a document.  What a reader of the tree meets first in the order
of writing, a value that does not fit or the end of the well-formed part, decides how it
fails.

## Main definitions

* `Source` — a document as written, possibly broken off.
* `Source.ofText s` — the document at the start of a text, and what follows it.
* `Source.sound` — whether nothing is broken off inside.
-/

namespace PlaceSearch.Json

/-- A document as written.  A number is missing if it is too large, a text if it holds half a
surrogate pair.  An array or object that is not `closed` is broken off after its last item; an
object may be broken off at something other than a text in the place of a name. -/
inductive Source where
  | null
  | bool (b : Bool)
  | num (n : Option Number)
  | str (s : Option String)
  | arr (items : List Source) (closed : Bool)
  | obj (members : List (Source × Source)) (closed : Bool)
  | broken

namespace Source

/-- Whether the character may stand between the parts of a document. -/
def isSpace (c : Char) : Bool :=
  c == ' ' || c == '\n' || c == '\t' || c == '\r'

/-- The text from the first part of a document on. -/
def skipSpace (cs : List Char) : List Char :=
  cs.dropWhile isSpace

/-- A part of a quoted text: a character as it stands, or an escaped 16-bit unit. -/
inductive Piece where
  | plain (c : Char)
  | unit (n : Nat)

/-- The value of a hexadecimal digit. -/
def hexValue (c : Char) : Option Nat :=
  if c.isDigit then some (c.toNat - '0'.toNat)
  else if 'a' ≤ c ∧ c ≤ 'f' then some (c.toNat - 'a'.toNat + 10)
  else if 'A' ≤ c ∧ c ≤ 'F' then some (c.toNat - 'A'.toNat + 10)
  else none

/-- The value of four hexadecimal digits. -/
def hexUnit (a b c d : Char) : Option Nat :=
  match hexValue a, hexValue b, hexValue c, hexValue d with
  | some a, some b, some c, some d => some (((a * 16 + b) * 16 + c) * 16 + d)
  | _, _, _, _ => none

/-- The character that a short escape stands for. -/
def shortEscape (c : Char) : Option Char :=
  match c with
  | '"' => some '"'
  | '\\' => some '\\'
  | '/' => some '/'
  | 'b' => some '\x08'
  | 'f' => some '\x0c'
  | 'n' => some '\n'
  | 'r' => some '\r'
  | 't' => some '\t'
  | _ => none

/-- The pieces up to the closing quote (latest first, in front of `acc`) and the rest of the
text; nothing if the text breaks off. -/
def pieces (acc : List Piece) : List Char → Option (List Piece × List Char)
  | [] => none
  | '"' :: cs => some (acc, cs)
  | '\\' :: 'u' :: a :: b :: c :: d :: cs =>
    match hexUnit a b c d with
    | some n => pieces (.unit n :: acc) cs
    | none => none
  | '\\' :: c :: cs =>
    match shortEscape c with
    | some e => pieces (.plain e :: acc) cs
    | none => none
  | '\\' :: [] => none
  | c :: cs => if c.toNat < 0x20 then none else pieces (.plain c :: acc) cs

/-- The text of some pieces; nothing if one of them is half a surrogate pair. -/
def joinPieces : List Piece → Option (List Char)
  | [] => some []
  | .plain c :: ps => (joinPieces ps).map (c :: ·)
  | .unit n :: .unit m :: ps =>
    if 0xD800 ≤ n ∧ n < 0xDC00 ∧ 0xDC00 ≤ m ∧ m < 0xE000 then
      (joinPieces ps).map (Char.ofNat (0x10000 + (n - 0xD800) * 0x400 + (m - 0xDC00)) :: ·)
    else if 0xD800 ≤ n ∧ n < 0xE000 then none
    else (joinPieces (.unit m :: ps)).map (Char.ofNat n :: ·)
  | .unit n :: ps =>
    if 0xD800 ≤ n ∧ n < 0xE000 then none else (joinPieces ps).map (Char.ofNat n :: ·)

/-- The quoted text after an opening quote, and what follows it. -/
def quoted (cs : List Char) : Option (Option String × List Char) :=
  (pieces [] cs).map fun (ps, rest) => ((joinPieces ps.reverse).map String.ofList, rest)

/-- The digits after a point, at least one. -/
def placesOf (cs : List Char) : Option (Option (List Char) × List Char) :=
  match cs with
  | '.' :: r =>
    let ds := r.takeWhile Char.isDigit
    if ds.isEmpty then none else some (some ds, r.dropWhile Char.isDigit)
  | _ => some (none, cs)

/-- An exponent with its sign, at least one digit. -/
def powerOf (cs : List Char) : Option (Option (Bool × List Char) × List Char) :=
  match cs with
  | c :: r =>
    if c = 'e' ∨ c = 'E' then
      let (down, r) := match r with
        | '-' :: r => (true, r)
        | '+' :: r => (false, r)
        | r => (false, r)
      let ds := r.takeWhile Char.isDigit
      if ds.isEmpty then none else some (some (down, ds), r.dropWhile Char.isDigit)
    else some (none, cs)
  | [] => some (none, [])

/-- A number: no zero in front of other digits, digits on both sides of a point. -/
def numeralOf (cs : List Char) : Option (Numeral × List Char) := do
  let (negative, cs) := match cs with
    | '-' :: r => (true, r)
    | r => (false, r)
  let whole := cs.takeWhile Char.isDigit
  if whole.isEmpty || (whole.length > 1 && whole.head? == some '0') then none
  let (places, cs) ← placesOf (cs.dropWhile Char.isDigit)
  let (power, cs) ← powerOf cs
  return (⟨negative, whole, places, power⟩, cs)

/-- The document at the start of a text that is no array, object or quoted text. -/
def scalar (cs : List Char) : Source × List Char :=
  match cs with
  | 'n' :: 'u' :: 'l' :: 'l' :: r => (.null, r)
  | 't' :: 'r' :: 'u' :: 'e' :: r => (.bool true, r)
  | 'f' :: 'a' :: 'l' :: 's' :: 'e' :: r => (.bool false, r)
  | _ => match numeralOf cs with
    | some (t, r) => (.num t.number?, r)
    | none => (.broken, cs)

/-- Whether a text was left in the middle of the value. -/
def isOpen : Source → Bool
  | .arr _ closed => !closed
  | .obj _ closed => !closed
  | .broken => true
  | _ => false

mutual

/-- The document at the start of a text, and what follows it.  `fuel` bounds the number of
parts. -/
def value : Nat → List Char → Source × List Char
  | 0, cs => (.broken, cs)
  | fuel + 1, cs =>
    match skipSpace cs with
    | '[' :: r =>
      match skipSpace r with
      | ']' :: r => (.arr [] true, r)
      | r =>
        let (xs, closed, r) := items fuel r
        (.arr xs closed, r)
    | '{' :: r =>
      match skipSpace r with
      | '}' :: r => (.obj [] true, r)
      | r =>
        let (ms, closed, r) := members fuel r
        (.obj ms closed, r)
    | '"' :: r =>
      match quoted r with
      | some (s, r) => (.str s, r)
      | none => (.broken, r)
    | r => scalar r

/-- The items of an array after its bracket or a comma, whether the array is closed, and what
follows it. -/
def items : Nat → List Char → List Source × Bool × List Char
  | 0, cs => ([], false, cs)
  | fuel + 1, cs =>
    let (x, r) := value fuel cs
    if x.isOpen then ([x], false, r)
    else match skipSpace r with
      | ']' :: r => ([x], true, r)
      | ',' :: r =>
        match skipSpace r with
        | ']' :: r => ([x], false, r)
        | r =>
          let (xs, closed, r) := items fuel r
          (x :: xs, closed, r)
      | r => ([x], false, r)

/-- The members of an object after its brace or a comma, whether the object is closed, and
what follows it. -/
def members : Nat → List Char → List (Source × Source) × Bool × List Char
  | 0, cs => ([], false, cs)
  | fuel + 1, cs =>
    match skipSpace cs with
    | '"' :: r =>
      match quoted r with
      | none => ([], false, r)
      | some (k, r) =>
        match skipSpace r with
        | ':' :: r =>
          let (x, r) := value fuel r
          if x.isOpen then ([(.str k, x)], false, r)
          else match skipSpace r with
            | '}' :: r => ([(.str k, x)], true, r)
            | ',' :: r =>
              let (ms, closed, r) := members fuel r
              ((.str k, x) :: ms, closed, r)
            | r => ([(.str k, x)], false, r)
        | r => ([(.str k, .broken)], false, r)
    | r =>
      let (k, r) := value fuel r
      ([(k, .broken)], false, r)

end

/-- The document at the start of a text, and what follows it. -/
def ofText (s : String) : Source × List Char :=
  let cs := s.toList
  value (2 * cs.length + 2) cs

mutual

/-- Whether nothing is broken off inside. -/
def sound : Source → Bool
  | .arr xs closed => soundItems xs && closed
  | .obj ms closed => soundMembers ms && closed
  | .broken => false
  | _ => true

/-- Whether nothing is broken off inside any of the items. -/
def soundItems : List Source → Bool
  | [] => true
  | x :: xs => sound x && soundItems xs

/-- Whether nothing is broken off inside any of the members. -/
def soundMembers : List (Source × Source) → Bool
  | [] => true
  | (_, x) :: ms => sound x && soundMembers ms

end

end Source

end PlaceSearch.Json
