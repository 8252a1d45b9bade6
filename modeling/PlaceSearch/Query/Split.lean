import PlaceSearch.Query.Parser

/-!
# The category half and the phrase half of a query

A query is split into a query over its categories and one over its phrases.  Its words are
searched for anew, without regard to the grammar.  For each half the terms of the other kind
are replaced by a removed piece, which is then eliminated by local reductions, first match
first, until none applies.  A removed piece goes together with the operator that binds it most
tightly; parentheses of the query that still hold more than one piece are kept.
-/

namespace PlaceSearch

namespace Token

/-- The text without any `@` at its two ends. -/
def withoutAts (s : String) : String :=
  let cs := s.toList.dropWhile (· == '@')
  String.ofList (cs.reverse.dropWhile (· == '@')).reverse

/-- The word that a match reads which begins and ends with `@`. -/
def ofQuoted (cs : List Char) : Token :=
  .term (.phrase (Text.trim (withoutAts (Text.lower (String.ofList cs)))))

/-- The match that is going on: none, a run, or a text that began with `@` (latest character
first). -/
inductive Match where
  | none
  | run (cs : List Char)
  | quoted (cs : List Char)

/-- The words found from a character on that no match is going on at; an `@` that no other
follows and a character of no word are passed over. -/
def searchFrom (c : Char) (rest : List Char) (next : Match → List Token) : List Token :=
  if isRunChar c then next (.run [c])
  else if c = '@' then next (if rest.contains '@' then .quoted [c] else .none)
  else match ofSymbol? c with
    | some t => t :: next .none
    | none => next .none

/-- The words found in the rest of a text. -/
def search : Match → List Char → List Token
  | .none, [] => []
  | .run cs, [] => [ofRun cs.reverse]
  | .quoted _, [] => []
  | .none, c :: rest => searchFrom c rest fun m => search m rest
  | .run cs, c :: rest =>
    if isRunChar c then search (.run (c :: cs)) rest
    else ofRun cs.reverse :: searchFrom c rest fun m => search m rest
  | .quoted cs, c :: rest =>
    if c = '@' then ofQuoted (c :: cs).reverse :: search .none rest
    else search (.quoted (c :: cs)) rest

end Token

/-- A word of a query, or the place of a removed operand. -/
inductive Piece where
  | word (t : Token)
  | removed
deriving DecidableEq, Repr

namespace Piece

/-- Whether the piece is a conjunction or disjunction sign. -/
def isBinary : Piece → Bool
  | .word .and | .word .or => true
  | _ => false

/-- Whether the piece is an operator. -/
def isOperator : Piece → Bool
  | .word .and | .word .or | .word .not => true
  | _ => false

/-- Whether an operand may end with this piece. -/
def endsOperand : Option Piece → Bool
  | some (.word .lparen) => false
  | some p => !p.isOperator
  | none => false

/-- Negations of a removed operand and parentheses around one piece or none are taken out:
`NOT removed`, `(removed)`, `(term)`, `()`. -/
def unwrap : List Piece → Option (List Piece)
  | .word .not :: .removed :: r => some (.removed :: r)
  | .word .lparen :: .removed :: .word .rparen :: r => some (.removed :: r)
  | .word .lparen :: .word (.term t) :: .word .rparen :: r => some (.word (.term t) :: r)
  | .word .lparen :: .word .rparen :: r => some (.removed :: r)
  | p :: r => (unwrap r).map (p :: ·)
  | [] => none

/-- The first conjunction of two removed operands becomes one. -/
def joinAnd : List Piece → Option (List Piece)
  | .removed :: .word .and :: .removed :: r => some (.removed :: r)
  | p :: r => (joinAnd r).map (p :: ·)
  | [] => none

/-- The first disjunction of two removed operands that no conjunction or negation binds
becomes one; `before` is the piece in front. -/
def joinOr (before : Option Piece) : List Piece → Option (List Piece)
  | [] => none
  | p :: r =>
    let further := (joinOr (some p) r).map (p :: ·)
    match p, r with
    | .removed, .word .or :: .removed :: r' =>
      if before = some (.word .and) ∨ before = some (.word .not)
          ∨ r'.head? = some (.word .and) then further
      else some (.removed :: r')
    | _, _ => further

/-- The first removed operand that is not negated goes with an operator beside it: the
conjunction before it, the conjunction after it, the disjunction before it if that follows
an operand, the disjunction after it.  `before` holds the pieces in front, nearest first. -/
def detach (before : List Piece) : List Piece → Option (List Piece)
  | [] => none
  | p :: r =>
    let further := detach (p :: before) r
    if p ≠ .removed then further
    else match before, r with
      | .word .not :: _, _ => further
      | .word .and :: before, _ => some (before.reverse ++ r)
      | _, .word .and :: r => some (before.reverse ++ r)
      | .word .or :: before', _ =>
        if endsOperand before'.head? then some (before'.reverse ++ r)
        else match r with
          | .word .or :: r => some (before.reverse ++ r)
          | _ => further
      | _, .word .or :: r => some (before.reverse ++ r)
      | _, _ => further

/-- The first operator that hangs at a parenthesis is taken out: a binary one after an
opening parenthesis, any one before a closing parenthesis. -/
def trimInner : List Piece → Option (List Piece)
  | [] => none
  | p :: r =>
    let further := (trimInner r).map (p :: ·)
    match p, r with
    | .word .lparen, q :: r' => if q.isBinary then some (p :: r') else further
    | _, .word .rparen :: _ => if p.isOperator then some r else further
    | _, _ => further

/-- An operator that hangs at an end is taken out: a binary one at the beginning, any one at
the end; failing that, one inside parentheses. -/
def trimOuter (ps : List Piece) : Option (List Piece) :=
  match ps with
  | [] => none
  | p :: r =>
    if p.isBinary then some r
    else match ps.getLast? with
      | some q => if q.isOperator then some ps.dropLast else trimInner ps
      | none => none

/-- The first reduction that applies. -/
def reduce (ps : List Piece) : Option (List Piece) :=
  (unwrap ps).orElse fun _ =>
    (joinAnd ps).orElse fun _ =>
      (joinOr none ps).orElse fun _ =>
        (detach [] ps).orElse fun _ => trimOuter ps

/-- Reducing up to `fuel` times, while a reduction applies. -/
def settleWithin : Nat → List Piece → List Piece
  | 0, ps => ps
  | fuel + 1, ps =>
    match reduce ps with
    | some qs => settleWithin fuel qs
    | none => ps

/-- Reducing until no reduction applies; every reduction takes out at least one piece. -/
def settle (ps : List Piece) : List Piece :=
  settleWithin ps.length ps

def render : Piece → String
  | .word t => t.render
  | .removed => "REMOVED"

/-- Whether the piece stands for no operand and no operator. -/
def isEmpty : Piece → Bool
  | .removed | .word .lparen | .word .rparen => true
  | _ => false

/-- The texts of the pieces after the piece `before`, a blank between any two but inside
parentheses. -/
def renderAfter : Piece → List Piece → String
  | _, [] => ""
  | before, p :: ps =>
    let gap := if before = .word .lparen ∨ p = .word .rparen then "" else " "
    gap ++ p.render ++ renderAfter p ps

/-- The text of settled pieces; empty if only parentheses and removed operands are left. -/
def renderAll (ps : List Piece) : String :=
  if ps.all isEmpty then ""
  else match ps with
    | [] => ""
    | p :: ps => p.render ++ renderAfter p ps

/-- The piece of a word in the half of the given kind. -/
def keep (kind : TermKind) (t : Token) : Piece :=
  match t with
  | .term u => if u.kind = kind then .word t else .removed
  | t => .word t

/-- The half of a query over the terms of one kind. -/
def half (kind : TermKind) (tokens : List Token) : String :=
  renderAll (settle (tokens.map (keep kind)))

end Piece

/-- The category half and the phrase half of a query.  A half without any term of its kind is
empty. -/
def splitQuery (s : String) : Except Error (String × String) :=
  match parse s with
  | .error e => .error e
  | .ok _ =>
    let tokens := Token.search .none s.toList
    .ok (Piece.half .category tokens, Piece.half .phrase tokens)

end PlaceSearch
