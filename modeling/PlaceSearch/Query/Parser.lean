import PlaceSearch.Error
import PlaceSearch.Query.Expr
import PlaceSearch.Query.Token

/-!
# Parsing queries

A query is a disjunction of conjunctions of operands; an operand is a term or a query in
parentheses, with any number of negations in front, of which only the parity counts.

The words of a query are taken one after the other.  Between two words the parser knows the
conjunctions it is inside of: one level for every open parenthesis, and one for the query
itself.
-/

namespace PlaceSearch

/-- The finished alternatives of a disjunction and the finished operands of the conjunction
that follows them, latest first. -/
structure Level where
  alternatives : List Expr := []
  operands : List Expr := []

namespace Level

/-- The level with one more operand in its conjunction. -/
def push (l : Level) (e : Expr) : Level :=
  { l with operands := e :: l.operands }

/-- The level after its conjunction was finished. -/
def turn (l : Level) : Level :=
  ⟨.conjunction l.operands.reverse :: l.alternatives, []⟩

/-- The expression of a finished level. -/
def close (l : Level) : Expr :=
  .disjunction l.turn.alternatives.reverse

end Level

/-- What may come next: an operand, an operand after negations (`odd` tells their parity), or
an operator. -/
inductive Need where
  | operand
  | negated (odd : Bool)
  | operator
deriving DecidableEq, Repr

namespace Need

/-- Whether an odd number of negations waits for the operand. -/
def odd : Need → Bool
  | .negated odd => odd
  | _ => false

/-- An operand under the negations in front of it. -/
def apply (odd : Bool) (e : Expr) : Expr :=
  if odd then .not e else e

end Need

/-- A parser between two words: the levels around the innermost one with the parity of the
negations in front of their parentheses, the innermost level, and what may come next. -/
structure Parser where
  around : List (Level × Bool) := []
  level : Level := {}
  need : Need := .operand

namespace Parser

/-- What the grammar asks for at this point. -/
def wanted (p : Parser) : Expectation :=
  match p.need with
  | .operand => .operand
  | .negated _ => .operandAfterNot
  | .operator => if p.around.isEmpty then .operatorOrEnd else .operator

/-- The parser after a finished operand. -/
def take (p : Parser) (e : Expr) : Parser :=
  { p with level := p.level.push e, need := .operator }

/-- The parser after one more word, or nothing if the word cannot stand here. -/
def step (p : Parser) (t : Token) : Option Parser :=
  match p.need, t with
  | .operator, .and => some { p with need := .operand }
  | .operator, .or => some { p with level := p.level.turn, need := .operand }
  | .operator, .rparen =>
    match p.around with
    | (l, odd) :: around => some (take ⟨around, l, .operand⟩ (Need.apply odd p.level.close))
    | [] => none
  | .operator, _ => none
  | need, .not => some { p with need := .negated (!need.odd) }
  | need, .term t => some (p.take (Need.apply need.odd (.atom t)))
  | need, .lparen => some ⟨(p.level, need.odd) :: p.around, {}, .operand⟩
  | _, _ => none

/-- The parser after some words; on a word that cannot stand where it does, the expectation
there and the offset of the word. -/
def run (p : Parser) : List (Token × Nat) → Except (Expectation × Nat) Parser
  | [] => .ok p
  | (t, n) :: ts =>
    match p.step t with
    | some p => run p ts
    | none => .error (p.wanted, n)

/-- The expression of a query that ends here. -/
def finish? (p : Parser) : Option Expr :=
  match p.need, p.around with
  | .operator, [] => some p.level.close
  | _, _ => none

/-- The expression that the words of a query read; else what the grammar asks for and the
offset where it does.  A phrase without text is at fault only where an operand may stand, and
then behind its `@`. -/
def ofLexed (r : Lexed) : Except (Expectation × Nat) Expr :=
  match run {} r.tokens with
  | .error e => .error e
  | .ok p =>
    match r.stop with
    | .finished =>
      match p.finish? with
      | some e => .ok e
      | none => .error (p.wanted, r.offset)
    | .stray => .error (p.wanted, r.offset)
    | .emptyPhrase =>
      if p.need = .operator then .error (p.wanted, r.offset - 1)
      else .error (.phraseText, r.offset)

end Parser

/-- Whether the word is a phrase of blanks only. -/
def Token.isBlankPhrase : Token → Bool
  | .term t => t.text.isEmpty
  | _ => false

/-- The expression that a text reads.  A phrase of blanks only is refused once the text is
known to be in the grammar. -/
def parse (s : String) : Except Error Expr :=
  let lexed := Lexed.ofText s
  match Parser.ofLexed lexed with
  | .error (wanted, offset) =>
    .error (.query (.unexpected wanted (.after s.toList offset)))
  | .ok e =>
    if lexed.tokens.any (·.1.isBlankPhrase) then .error (.query .emptyPhrase) else .ok e

end PlaceSearch
