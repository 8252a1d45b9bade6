import PlaceSearch.Query.Term
import PlaceSearch.Text.Blank
import PlaceSearch.Text.Lower

/-!
# The words of a query

A query is cut into symbols, phrases between two `@`, and runs of letters, digits, `_` and
`-`, each as long as possible; blanks, tabs and line ends may stand between them.  A run that
reads `and`, `or` or `not` in any letter case is that operator, any other run a category.
-/

namespace PlaceSearch

/-- A word of a query. -/
inductive Token where
  | term (t : Term)
  | and
  | or
  | not
  | lparen
  | rparen
deriving DecidableEq, Repr

namespace Token

def render : Token → String
  | .term t => t.render
  | .and => "AND"
  | .or => "OR"
  | .not => "NOT"
  | .lparen => "("
  | .rparen => ")"

def isRunChar (c : Char) : Bool :=
  c.isAlphanum || c == '_' || c == '-'

def ofRun (cs : List Char) : Token :=
  let text := Text.lower (String.ofList cs)
  if text = "and" then .and
  else if text = "or" then .or
  else if text = "not" then .not
  else .term (.category text)

/-- The word that the text of a phrase reads: in lower case, without blanks at its ends. -/
def ofPhrase (cs : List Char) : Token :=
  .term (.phrase (Text.lower (Text.trim (String.ofList cs))))

/-- The symbol that a character reads. -/
def ofSymbol? (c : Char) : Option Token :=
  match c with
  | '&' => some .and
  | '|' => some .or
  | '~' => some .not
  | '(' => some .lparen
  | ')' => some .rparen
  | _ => none

end Token

/-- Why the cutting of a query into words stopped: at its end, at a character that begins no
word (a phrase that is never closed among them), or behind the `@` of a phrase without
text. -/
inductive Stop where
  | finished
  | stray
  | emptyPhrase
deriving DecidableEq, Repr

/-- The words of a query with the offsets of their first characters, and why and at which
offset the cutting stopped. -/
structure Lexed where
  tokens : List (Token × Nat)
  stop : Stop
  offset : Nat
deriving DecidableEq, Repr

namespace Lexed

/-- The result with one more word in front. -/
def cons (t : Token) (offset : Nat) (r : Lexed) : Lexed :=
  { r with tokens := (t, offset) :: r.tokens }

/-- What the characters read last belong to: nothing, a run or a phrase (latest character
first, with the offset of its beginning). -/
inductive Mode where
  | idle
  | run (cs : List Char) (start : Nat)
  | phrase (cs : List Char) (start : Nat)

/-- The words from a character on that begins a word or stands between words; `continue`
gives the words of the text behind it. -/
def begin (c : Char) (n : Nat) (rest : Mode → Lexed) : Lexed :=
  if Text.isGap c then rest .idle
  else if Token.isRunChar c then rest (.run [c] n)
  else if c = '@' then rest (.phrase [] n)
  else match Token.ofSymbol? c with
    | some t => (rest .idle).cons t n
    | none => ⟨[], .stray, n⟩

/-- The words of the rest of a text from offset `n` on. -/
def scan : Mode → Nat → List Char → Lexed
  | .idle, n, [] => ⟨[], .finished, n⟩
  | .run cs start, n, [] => Lexed.cons (.ofRun cs.reverse) start ⟨[], .finished, n⟩
  | .phrase cs start, _, [] =>
    if cs.isEmpty then ⟨[], .emptyPhrase, start + 1⟩ else ⟨[], .stray, start⟩
  | .idle, n, c :: rest => begin c n fun mode => scan mode (n + 1) rest
  | .run cs start, n, c :: rest =>
    if Token.isRunChar c then scan (.run (c :: cs) start) (n + 1) rest
    else (begin c n fun mode => scan mode (n + 1) rest).cons (.ofRun cs.reverse) start
  | .phrase cs start, n, c :: rest =>
    if c = '@' then
      if cs.isEmpty then ⟨[], .emptyPhrase, start + 1⟩
      else (scan .idle (n + 1) rest).cons (.ofPhrase cs.reverse) start
    else scan (.phrase (c :: cs) start) (n + 1) rest

def ofText (s : String) : Lexed :=
  scan .idle 0 s.toList

end Lexed

end PlaceSearch
