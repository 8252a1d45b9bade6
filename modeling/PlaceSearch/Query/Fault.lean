import PlaceSearch.Query.Term

/-!
# What can be wrong with a query

A query is refused at a line and a column, with what the grammar asks for there, or for a phrase of
blanks only, or for a term that a symbol table does not hold.
-/

namespace PlaceSearch

/-- A line and a column, both counted from one, columns in characters. -/
structure Position where
  line : Nat
  column : Nat
deriving DecidableEq, Repr

def Position.next (p : Position) (c : Char) : Position :=
  if c = '\n' then ⟨p.line + 1, 1⟩ else ⟨p.line, p.column + 1⟩

/-- The position behind the first `offset` characters of a text. -/
def Position.after (text : List Char) (offset : Nat) : Position :=
  (text.take offset).foldl Position.next ⟨1, 1⟩

/-- What the grammar asks for where a query stops making sense. -/
inductive Expectation where
  | operand
  | operandAfterNot
  | phraseText
  | operatorOrEnd
  | operator
deriving DecidableEq, Repr

/-- The wording of an expectation, in the names of the grammar. -/
def Expectation.message : Expectation → String
  | .operand => "expected negation"
  | .operandAfterNot => "expected not_op, category, or phrase"
  | .phraseText => "expected phrase_text"
  | .operatorOrEnd => "expected EOI, or_op, or and_op"
  | .operator => "expected or_op or and_op"

/-- What is wrong with a query. -/
inductive QueryFault where
  | unexpected (wanted : Expectation) (position : Position)
  | emptyPhrase
  | unmapped (t : Term)
deriving DecidableEq, Repr

namespace QueryFault

def message : QueryFault → String
  | .unexpected wanted _ => wanted.message
  | .emptyPhrase => "empty phrase"
  | .unmapped t => "unmapped term " ++ t.render

/-- Where in the query the fault lies, if it has a place. -/
def position? : QueryFault → Option Position
  | .unexpected _ p => some p
  | _ => none

end QueryFault

end PlaceSearch
